import GrammarAudit.Proofs.Yaml.RoundTrip

/-!
# The order of fields

The fields of an object are written in the order of their names. The object has the same fields in
that order, so a field is found by its name as before.

- `sortItems_eq`, `sortFields_object`: sorting in terms of lists.
- `blocks_sortFields`: a value that can be written can be written in order.
- `mapTexts_sortFields`: texts can be replaced before or after.
- `read?_write`: what is written of an object is read to it, its fields in order.
- `lookup_perm`, `field?_sorted`: fields by their names.
-/

namespace GrammarAudit.Yaml

variable {i : Nat} {v : Json} {fields : List (String × Json)}

/-- The order of fields. -/
def byName (a b : String × Json) : Bool :=
  a.1 ≤ b.1

/-- A field with the fields inside of it in order. -/
def sortValue (field : String × Json) : String × Json :=
  (field.1, sortFields field.2)

theorem sortItems_eq (items : List Json) : sortItems items = items.map sortFields := by
  induction items with
  | nil => rfl
  | cons item items ih => exact congrArg (sortFields item :: ·) ih

theorem sortValues_eq (fields : List (String × Json)) :
    sortValues fields = fields.map sortValue := by
  induction fields with
  | nil => rfl
  | cons field fields ih => exact congrArg (sortValue field :: ·) ih

theorem sortFields_list (items : List Json) :
    sortFields (.list items) = .list (items.map sortFields) := by
  rw [← sortItems_eq]
  rfl

theorem sortFields_object (fields : List (String × Json)) :
    sortFields (.object fields) = .object ((fields.map sortValue).mergeSort byName) := by
  rw [← sortValues_eq]
  rfl

/-- The fields in order. -/
theorem perm_sorted (fields : List (String × Json)) :
    ((fields.map sortValue).mergeSort byName).Perm (fields.map sortValue) :=
  List.mergeSort_perm _ _

theorem names_sortValue (fields : List (String × Json)) :
    (fields.map sortValue).map Prod.fst = fields.map Prod.fst := by
  rw [List.map_map]
  rfl

theorem nodup_sorted (h : (fields.map Prod.fst).Nodup) :
    (((fields.map sortValue).mergeSort byName).map Prod.fst).Nodup := by
  rw [((perm_sorted fields).map Prod.fst).nodup_iff, names_sortValue]
  exact h

/-! ## Values that can be written -/

theorem forall_sorted {p : String × Json → Prop} (h : ∀ field ∈ fields, p (sortValue field)) :
    ∀ field ∈ (fields.map sortValue).mergeSort byName, p field := by
  intro field hfield
  obtain ⟨field, hmem, rfl⟩ := List.mem_map.mp ((perm_sorted fields).mem_iff.mp hfield)
  exact h field hmem

theorem sorted_ne_nil (h : fields ≠ []) : (fields.map sortValue).mergeSort byName ≠ [] := by
  intro hnil
  have hperm := perm_sorted fields
  rw [hnil] at hperm
  exact h (List.map_eq_nil_iff.mp hperm.nil_eq.symm)

theorem exists_list_of_sortFields {inner : List Json} (h : sortFields v = .list inner) :
    ∃ items, v = .list items := by
  cases v with
  | list items => exact ⟨items, rfl⟩
  | object fields =>
    rw [sortFields_object] at h
    cases h
  | _ => cases h

/-- **A value that can be written can be written in order.** -/
theorem blocks_sortFields (h : Blocks i v) : Blocks i (sortFields v) := by
  induction h with
  | leaf hv =>
    have hleaf := Blocks.leaf hv
    cases hv <;> exact hleaf
  | @list _ items hflat _ ih =>
    rw [sortFields_list]
    refine .list (fun item hitem inner hinner => ?_) fun item hitem => ?_
    · obtain ⟨item, hmem, rfl⟩ := List.mem_map.mp hitem
      obtain ⟨items, rfl⟩ := exists_list_of_sortFields hinner
      exact hflat _ hmem items rfl
    · obtain ⟨item, hmem, rfl⟩ := List.mem_map.mp hitem
      exact ih item hmem
  | object hne hnodup hnames _ ih =>
    rw [sortFields_object]
    exact .object (sorted_ne_nil hne) (nodup_sorted hnodup) (forall_sorted hnames)
      (forall_sorted ih)

theorem documentFields_sorted (h : DocumentFields fields) :
    DocumentFields ((fields.map sortValue).mergeSort byName) where
  ne_nil := sorted_ne_nil h.ne_nil
  nodup := nodup_sorted h.nodup
  names := forall_sorted h.names
  blocks := forall_sorted fun field hfield => blocks_sortFields (h.blocks field hfield)

/-- The value that a text holds, as JSON has it. -/
def read? (text : String) : Option Json :=
  (Value.ofText text.toList).toOption.bind Value.toJson?

/-- **What is written of an object is read to it**, up to its texts and with its fields in order. -/
theorem read?_write (h : DocumentFields fields) :
    read? (write (.object fields)) = some ((sortFields (.object fields)).mapTexts readBack) := by
  obtain ⟨value, hvalue, hjson⟩ := ofText_writeBlock (documentFields_sorted h)
  rw [read?, write, String.toList_ofList, sortFields_object, hvalue]
  exact hjson

/-! ## Replacing texts -/

theorem mapItems_eq (f : String → String) (items : List Json) :
    Json.mapItems f items = items.map (Json.mapTexts f) := by
  induction items with
  | nil => rfl
  | cons item items ih => exact congrArg (Json.mapTexts f item :: ·) ih

theorem mapValues_eq (f : String → String) (fields : List (String × Json)) :
    Json.mapValues f fields = fields.map fun field => (field.1, field.2.mapTexts f) := by
  induction fields with
  | nil => rfl
  | cons field fields ih => exact congrArg ((field.1, field.2.mapTexts f) :: ·) ih

@[simp] theorem mapTexts_str (f : String → String) (s : String) :
    (Json.str s).mapTexts f = .str (f s) := rfl

@[simp] theorem mapTexts_bool (f : String → String) (b : Bool) :
    (Json.bool b).mapTexts f = .bool b := rfl

@[simp] theorem mapTexts_num (f : String → String) (n : Number) :
    (Json.num n).mapTexts f = .num n := rfl

@[simp] theorem mapTexts_int (f : String → String) (n : Int) :
    (Json.int n).mapTexts f = .int n := rfl

@[simp] theorem mapTexts_list (f : String → String) (items : List Json) :
    (Json.list items).mapTexts f = .list (items.map (Json.mapTexts f)) := by
  rw [← mapItems_eq]
  rfl

@[simp] theorem mapTexts_object (f : String → String) (fields : List (String × Json)) :
    (Json.object fields).mapTexts f =
      .object (fields.map fun field => (field.1, field.2.mapTexts f)) := by
  rw [← mapValues_eq]
  rfl

mutual

/-- Texts can be replaced before the fields are put in order, or after. -/
theorem mapTexts_sortFields (f : String → String) : ∀ v : Json,
    (sortFields v).mapTexts f = sortFields (v.mapTexts f)
  | .null | .bool _ | .num _ | .str _ => rfl
  | .list items => by
    have hitems := mapTexts_sortItems f items
    rw [mapItems_eq, sortItems_eq, mapItems_eq, sortItems_eq] at hitems
    rw [sortFields_list, mapTexts_list, hitems, mapTexts_list, sortFields_list]
  | .object fields => by
    have hvalues := mapTexts_sortValues f fields
    rw [mapValues_eq, sortValues_eq, mapValues_eq, sortValues_eq] at hvalues
    -- the order depends on the names alone, and these stay
    have hsort := List.map_mergeSort (l := fields.map sortValue) (r := byName) (s := byName)
      (f := fun field => (field.1, field.2.mapTexts f)) fun _ _ _ _ => rfl
    rw [sortFields_object, mapTexts_object, mapTexts_object, sortFields_object, hsort, hvalues]

theorem mapTexts_sortItems (f : String → String) : ∀ items : List Json,
    Json.mapItems f (sortItems items) = sortItems (Json.mapItems f items)
  | [] => rfl
  | item :: items =>
    congrArg₂ List.cons (mapTexts_sortFields f item) (mapTexts_sortItems f items)

theorem mapTexts_sortValues (f : String → String) : ∀ fields : List (String × Json),
    Json.mapValues f (sortValues fields) = sortValues (Json.mapValues f fields)
  | [] => rfl
  | (name, value) :: fields =>
    congrArg₂ List.cons (congrArg (name, ·) (mapTexts_sortFields f value))
      (mapTexts_sortValues f fields)

end

/-! ## Fields by name -/

/-- What is listed under names, in either order, is found alike. -/
theorem lookup_perm {α : Type} {l l' : List (String × α)} (hperm : l.Perm l')
    (h : (l.map Prod.fst).Nodup) (name : String) : l.lookup name = l'.lookup name := by
  induction hperm with
  | nil => rfl
  | cons entry _ ih =>
    rw [List.map_cons, List.nodup_cons] at h
    rw [List.lookup_cons, List.lookup_cons, ih h.2]
  | swap a b l =>
    rw [List.map_cons, List.map_cons, List.nodup_cons, List.mem_cons, not_or] at h
    rw [List.lookup_cons, List.lookup_cons, List.lookup_cons, List.lookup_cons]
    by_cases ha : name = a.1
    · have hb : (name == b.1) = false := beq_eq_false_iff_ne.mpr fun hb => h.1.1 (hb.symm.trans ha)
      rw [hb]
    · have ha : (name == a.1) = false := beq_eq_false_iff_ne.mpr ha
      rw [ha]
  | trans hperm _ ih ih' => rw [ih h, ih' ((hperm.map Prod.fst).nodup_iff.mp h)]

theorem lookup_sortValue (fields : List (String × Json)) (name : String) :
    (fields.map sortValue).lookup name = (fields.lookup name).map sortFields := by
  induction fields with
  | nil => rfl
  | cons field fields ih =>
    obtain ⟨key, value⟩ := field
    rw [List.map_cons, sortValue, List.lookup_cons, List.lookup_cons, ih]
    dsimp only
    cases name == key
    · rfl
    · rfl

/-- **A field is found by its name**, in whatever order the fields are. -/
theorem field?_sorted (h : (fields.map Prod.fst).Nodup) (name : String) :
    Json.field? ((fields.map sortValue).mergeSort byName) name =
      (Json.field? fields name).map sortFields := by
  rw [Json.field?, lookup_perm (perm_sorted fields) (nodup_sorted h), lookup_sortValue]
  rfl

end GrammarAudit.Yaml
