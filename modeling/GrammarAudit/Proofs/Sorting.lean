/-!
# Stable sorting

A stable sort leaves entries that are tied in the order in which they stood. So it commutes with
picking out a class of tied entries, and a list sorted by a key is its classes one after the other.

- `filter_mergeSort`: a class of tied entries stands in a sorted list as it stood in the list.
- `StablySorted`, `stablySorted_mergeSort`: what a stable sort by a key is.
- `StablySorted.eq_flatMap`: a list sorted by a key, class by class.
-/

namespace GrammarAudit

variable {α : Type}

/-- Entries of which no two are in the wrong order stand in the sorted list as they stood. -/
theorem filter_mergeSort {le : α → α → Bool}
    (trans : ∀ a b c, le a b = true → le b c = true → le a c = true)
    (total : ∀ a b, (le a b || le b a) = true) {p : α → Bool}
    (tied : ∀ a b, p a = true → p b = true → le a b = true) (l : List α) :
    (l.mergeSort le).filter p = l.filter p := by
  have hsorted : (l.filter p).Pairwise fun a b => le a b = true :=
    List.pairwise_filter.mpr <| List.pairwise_iff_forall_sublist.mpr fun _ ha hb =>
      tied _ _ ha hb
  have hkept : (l.filter p).Sublist (l.mergeSort le) :=
    List.sublist_mergeSort trans total hsorted List.filter_sublist
  have hclass : (l.filter p).Sublist ((l.mergeSort le).filter p) := by
    have hfiltered := hkept.filter p
    rwa [List.filter_filter, show (fun a => p a && p a) = p from funext fun a => Bool.and_self _]
      at hfiltered
  -- no more entries of the class are in the sorted list than in the list
  have hlength : (l.filter p).length = ((l.mergeSort le).filter p).length :=
    ((List.mergeSort_perm l le).filter p).length_eq.symm
  exact (hclass.eq_of_length hlength).symm

/-! ## Sorting by a key -/

/-- A list stably sorted by a key: the entries of the list, by their keys, and those of one key in
the order in which they stood. -/
structure StablySorted {κ : Type} [DecidableEq κ] (r : κ → κ → Prop) (key : α → κ)
    (l sorted : List α) : Prop where
  perm : sorted.Perm l
  ordered : sorted.Pairwise fun a b => r (key a) (key b)
  tied : ∀ k, (sorted.filter fun a => key a = k) = l.filter fun a => key a = k

theorem stablySorted_mergeSort {κ : Type} [DecidableEq κ] {r : κ → κ → Prop} [DecidableRel r]
    (trans : ∀ a b c, r a b → r b c → r a c) (total : ∀ a b, r a b ∨ r b a) (key : α → κ)
    (l : List α) :
    StablySorted r key l (l.mergeSort fun a b => decide (r (key a) (key b))) := by
  have htrans (a b c : α) (hab : decide (r (key a) (key b)) = true)
      (hbc : decide (r (key b) (key c)) = true) : decide (r (key a) (key c)) = true :=
    decide_eq_true (trans _ _ _ (of_decide_eq_true hab) (of_decide_eq_true hbc))
  have htotal (a b : α) : (decide (r (key a) (key b)) || decide (r (key b) (key a))) = true := by
    rw [Bool.or_eq_true, decide_eq_true_eq, decide_eq_true_eq]
    exact total _ _
  refine ⟨List.mergeSort_perm _ _, ?ordered, fun k => ?tied⟩
  case ordered => exact (List.pairwise_mergeSort htrans htotal l).imp of_decide_eq_true
  case tied =>
    refine filter_mergeSort htrans htotal (fun a b ha hb => ?_) l
    rw [of_decide_eq_true ha, of_decide_eq_true hb]
    exact decide_eq_true ((total k k).elim id id)

/-! ## Class by class -/

section Key

variable {key : α → Nat}

/-- In a sorted list the entries with the least key come first. -/
theorem eq_filter_append_filter {l : List α} (sorted : l.Pairwise fun a b => key a ≤ key b)
    {k : Nat} (least : ∀ a ∈ l, k ≤ key a) :
    l = l.filter (fun a => key a = k) ++ l.filter fun a => key a ≠ k := by
  induction l with
  | nil => rfl
  | cons a l ih =>
    obtain ⟨hfirst, hrest⟩ := List.pairwise_cons.mp sorted
    by_cases ha : key a = k
    · rw [List.filter_cons_of_pos (by simpa using ha), List.filter_cons_of_neg (by simpa using ha),
        List.cons_append, ← ih hrest fun b hb => least b (List.mem_cons_of_mem a hb)]
    · -- a larger key, and so have all entries behind it
      have hlarger : ∀ b ∈ a :: l, key b ≠ k := by
        intro b hb
        have hk := least a List.mem_cons_self
        rcases List.mem_cons.mp hb with rfl | hb
        · exact ha
        · have hab := hfirst b hb
          omega
      rw [List.filter_eq_nil_iff.mpr (by simpa using hlarger), List.nil_append,
        List.filter_eq_self.mpr (by simpa using hlarger)]

/-- A sorted list is its classes one after the other. -/
theorem eq_flatMap_of_pairwise {keys : List Nat} (ordered : keys.Pairwise (· < ·)) {l : List α}
    (sorted : l.Pairwise fun a b => key a ≤ key b) (covered : ∀ a ∈ l, key a ∈ keys) :
    l = keys.flatMap fun k => l.filter fun a => key a = k := by
  induction keys generalizing l with
  | nil =>
    rw [List.eq_nil_iff_forall_not_mem.mpr fun a ha => List.not_mem_nil (covered a ha)]
    rfl
  | cons k keys ih =>
    obtain ⟨hfirst, hkeys⟩ := List.pairwise_cons.mp ordered
    have hleast : ∀ a ∈ l, k ≤ key a := by
      intro a ha
      rcases List.mem_cons.mp (covered a ha) with h | h
      · exact Nat.le_of_eq h.symm
      · exact Nat.le_of_lt (hfirst _ h)
    have hrest : ∀ a ∈ l.filter (fun a => key a ≠ k), key a ∈ keys := by
      intro a ha
      obtain ⟨hmem, hne⟩ := List.mem_filter.mp ha
      exact (List.mem_cons.mp (covered a hmem)).resolve_left (of_decide_eq_true hne)
    have htail := ih hkeys (sorted.filter _) hrest
    -- the later classes do not hold the first key
    have hclasses : ∀ k' ∈ keys, ((l.filter fun a => key a ≠ k).filter fun a => key a = k') =
        l.filter fun a => key a = k' := by
      intro k' hk'
      have hlt := hfirst k' hk'
      rw [List.filter_filter]
      refine List.filter_congr fun a _ => ?_
      by_cases ha : key a = k'
      · have hne : key a ≠ k := by omega
        rw [decide_eq_true ha, decide_eq_true hne]
        rfl
      · rw [decide_eq_false ha, Bool.false_and]
    rw [List.flatMap_cons]
    calc l = l.filter (fun a => key a = k) ++ l.filter fun a => key a ≠ k :=
          eq_filter_append_filter sorted hleast
      _ = _ := by
          rw [htail, List.flatMap_def, List.flatMap_def]
          congr 2
          exact List.map_congr_left hclasses

/-- **A list sorted by a key comes class by class**, each class in the order of the list. -/
theorem StablySorted.eq_flatMap {l sorted : List α} (h : StablySorted (· ≤ ·) key l sorted)
    {keys : List Nat} (ordered : keys.Pairwise (· < ·)) (covered : ∀ a ∈ l, key a ∈ keys) :
    sorted = keys.flatMap fun k => l.filter fun a => key a = k := by
  have hclasses := eq_flatMap_of_pairwise ordered h.ordered fun a ha =>
    covered a (h.perm.mem_iff.mp ha)
  rw [hclasses]
  congr 1
  funext k
  exact h.tied k

end Key

end GrammarAudit
