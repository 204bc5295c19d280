import GrammarAudit.Json.Basic

/-!
# The fields of objects

An object is built field by field, and a field that is set again keeps its place. Names stay
distinct that way, and fields of distinct names are built up just as they are listed.

- `setField_of_not_mem`: a new field comes last.
- `mem_map_fst_setField`, `nodup_setField`: the names after a field is set.
- `foldl_setField`, `ofFields_of_nodup`: fields of distinct names.
-/

namespace GrammarAudit.Json

variable {α : Type} {fields : List (String × α)} {name : String}

theorem setField_of_not_mem (h : name ∉ fields.map Prod.fst) (value : α) :
    setField fields name value = fields ++ [(name, value)] := by
  induction fields with
  | nil => rfl
  | cons field fields ih =>
    obtain ⟨k, v⟩ := field
    rw [List.map_cons, List.mem_cons, not_or] at h
    rw [setField, if_neg (Ne.symm h.1), ih h.2, List.cons_append]

theorem mem_map_fst_setField {k : String} {value : α} :
    k ∈ (setField fields name value).map Prod.fst ↔ k = name ∨ k ∈ fields.map Prod.fst := by
  induction fields with
  | nil => simp [setField]
  | cons field fields ih =>
    obtain ⟨l, v⟩ := field
    rw [setField]
    split
    · next h => simp [h]
    · rw [List.map_cons, List.map_cons, List.mem_cons, List.mem_cons, ih]
      exact or_left_comm

/-- Names stay distinct when a field is set. -/
theorem nodup_setField (h : (fields.map Prod.fst).Nodup) (value : α) :
    ((setField fields name value).map Prod.fst).Nodup := by
  induction fields with
  | nil => simp [setField]
  | cons field fields ih =>
    obtain ⟨k, v⟩ := field
    rw [List.map_cons, List.nodup_cons] at h
    rw [setField]
    split
    · exact List.nodup_cons.mpr h
    · next hne =>
      rw [List.map_cons, List.nodup_cons, mem_map_fst_setField, not_or]
      exact ⟨⟨hne, h.1⟩, ih h.2⟩

/-- Setting fields of distinct new names lists them behind the others. -/
theorem foldl_setField {set : List (String × α)} (h : ((set ++ fields).map Prod.fst).Nodup) :
    fields.foldl (fun set (k, v) => setField set k v) set = set ++ fields := by
  induction fields generalizing set with
  | nil => rw [List.foldl_nil, List.append_nil]
  | cons field fields ih =>
    obtain ⟨k, v⟩ := field
    have hnew : k ∉ set.map Prod.fst := by
      rw [List.map_append, List.nodup_append] at h
      exact fun hmem => h.2.2 k hmem k (List.mem_cons_self ..) rfl
    have hassoc : set ++ [(k, v)] ++ fields = set ++ (k, v) :: fields := by
      rw [List.append_assoc, List.singleton_append]
    rw [List.foldl_cons]
    show List.foldl _ (setField set k v) fields = _
    rw [setField_of_not_mem hnew, ih (by rw [hassoc]; exact h), hassoc]

/-- The object of fields of distinct names has just these. -/
theorem ofFields_of_nodup {fields : List (String × Json)} (h : (fields.map Prod.fst).Nodup) :
    ofFields fields = object fields := by
  rw [ofFields, foldl_setField (by rwa [List.nil_append]), List.nil_append]

end GrammarAudit.Json
