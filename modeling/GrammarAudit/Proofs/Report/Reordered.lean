import GrammarAudit.Proofs.Report.DocumentForm
import GrammarAudit.Proofs.Yaml.FieldOrder
import Mathlib.Data.List.Nodup

/-!
# Reports with their fields in order

A document is read field by field, each by its name, and a tally is set count by count. So it makes
no difference to a report in which order the fields of its document are.

- `get_sortFields`, `getOr_sortFields`: fields by their names.
- `RuleRecord.ofJson_sortFields` and its like: the records of a section.
- `Tally.ofJson_sortFields`, `Summary.ofJson_sortFields`: counts.
- `ofJson_sortFields`: a report is read from its document in order.
-/

namespace GrammarAudit

open Yaml (sortFields sortValue byName)

/-! ## Fields -/

section Fields

variable {fields : List (String × Json)}

theorem get_sortFields (h : (fields.map Prod.fst).Nodup) (name : String) :
    (sortFields (.object fields)).get name =
      match Json.field? fields name with
      | some v => .ok (sortFields v)
      | none => .error (.missingField name) := by
  rw [Yaml.sortFields_object, Json.get, Yaml.field?_sorted h]
  cases Json.field? fields name
  · rfl
  · rfl

theorem getOr_sortFields (h : (fields.map Prod.fst).Nodup) (name : String) (default : Json) :
    (sortFields (.object fields)).getOr name default =
      ((Json.field? fields name).map sortFields).getD default := by
  rw [Yaml.sortFields_object, Json.getOr, Yaml.field?_sorted h]

@[simp] theorem sortFields_str (s : String) : sortFields (.str s) = .str s := rfl

@[simp] theorem sortFields_int (n : Int) : sortFields (.int n) = .int n := rfl

@[simp] theorem sortFields_bool (b : Bool) : sortFields (.bool b) = .bool b := rfl

@[simp] theorem sortFields_num (n : Number) : sortFields (.num n) = .num n := rfl

end Fields

theorem sortFields_strs (l : List String) :
    sortFields (.list (l.map Json.str)) = .list (l.map Json.str) := by
  rw [Yaml.sortFields_list, List.map_map]
  rfl

theorem sortFields_ints (l : List Int) :
    sortFields (.list (l.map Json.int)) = .list (l.map Json.int) := by
  rw [Yaml.sortFields_list, List.map_map]
  rfl

/-! ## Records -/

theorem RuleRecord.ofJson_sortFields (r : RuleRecord String Int) :
    RuleRecord.ofJson (sortFields (r.map Json.str Json.int).toJson) =
      .ok (r.map Json.str Json.int) := by
  simp [ofJson, toJson, RuleRecord.map, get_sortFields, getOr_sortFields, sortFields_strs,
    Json.field?, List.lookup_cons, Json.parts, toKind_label, ok_bind, pure_eq_ok]

theorem UnusedRecord.ofJson_sortFields (u : UnusedRecord String Int) :
    UnusedRecord.ofJson (sortFields (u.map Json.str Json.int).toJson) =
      .ok (u.map Json.str Json.int) := by
  simp [ofJson, toJson, UnusedRecord.map, get_sortFields, Json.field?, List.lookup_cons,
    toKind_label, ok_bind, pure_eq_ok]

theorem MetricsRecord.ofJson_sortFields (m : MetricsRecord String Int) :
    MetricsRecord.ofJson (sortFields (m.map Json.str Json.int).toJson) =
      .ok (m.map Json.str Json.int) := by
  simp [ofJson, toJson, MetricsRecord.map, get_sortFields, Json.field?, List.lookup_cons,
    Json.isTruthy, toKind_label, toGrade_label, ok_bind, pure_eq_ok]

theorem IssueRecord.ofJson_sortFields (i : IssueRecord String Int) :
    IssueRecord.ofJson (sortFields (i.map Json.str Json.int).toJson) =
      .ok (i.map Json.str Json.int) := by
  simp [ofJson, toJson, IssueRecord.map, get_sortFields, Json.field?, List.lookup_cons,
    toKind_label, toSeverity_label, toCategory_label, ok_bind, pure_eq_ok]

theorem HintRecord.ofJson_sortFields (h : HintRecord String Int) :
    HintRecord.ofJson (sortFields (h.map Json.str Json.int).toJson) =
      .ok (h.map Json.str Json.int) := by
  simp [ofJson, toJson, HintRecord.map, get_sortFields, sortFields_strs, sortFields_ints,
    Json.field?, List.lookup_cons, Json.parts, ok_bind, pure_eq_ok]

theorem DanglingRecord.ofJson_sortFields (d : DanglingRecord String Int) :
    DanglingRecord.ofJson (sortFields (d.map Json.str Json.int).toJson) =
      .ok (d.map Json.str Json.int) := by
  obtain ⟨fields, hfields⟩ : ∃ fields : List (String × Json), fields = [("rule", .str d.rule),
    ("name", .str d.name), ("line", .int d.line), ("column", .int d.column)] := ⟨_, rfl⟩
  have hjson : (d.map Json.str Json.int).toJson = .object fields := by
    rw [hfields]
    rfl
  have hnodup : (fields.map Prod.fst).Nodup := by
    rw [hfields]
    show ["rule", "name", "line", "column"].Nodup
    decide
  have hknown : ((fields.map sortValue).mergeSort byName).all
      (fun field => field.1 ∈ ["rule", "name", "line", "column"]) = true := by
    rw [(Yaml.perm_sorted fields).all_eq, hfields]
    rfl
  rw [hjson, Yaml.sortFields_object, ofJson, Yaml.field?_sorted hnodup, Yaml.field?_sorted hnodup,
    Yaml.field?_sorted hnodup, Yaml.field?_sorted hnodup, hknown, hfields]
  rfl

/-- A section is read back with the fields of its entries in order, if each entry is. -/
theorem readSection_sortFields {α β : Type} {read : Json → Reading β} {toJson : β → Json}
    {f : α → β} (h : ∀ a, read (sortFields (toJson (f a))) = .ok (f a)) (entries : List α) :
    readSection read (sortFields (.list ((entries.map f).map toJson))) = .ok (entries.map f) := by
  rw [Yaml.sortFields_list]
  show (((entries.map f).map toJson).map sortFields).mapM read = .ok (entries.map f)
  induction entries with
  | nil => rfl
  | cons a entries ih =>
    rw [List.map_cons, List.map_cons, List.map_cons, List.mapM_cons, h, ok_bind, ih, ok_bind,
      pure_eq_ok]

/-! ## Counts -/

theorem map_sortValue_countFields (counts : List (String × Int)) :
    (countFields counts).map sortValue = countFields counts := by
  rw [countFields, List.map_map]
  rfl

/-- Counts are read in the order in which their fields are. -/
theorem readCounts_of_perm {fields : List (String × Json)} {counts : List (String × Int)}
    (h : fields.Perm (countFields counts)) :
    ∃ read, readCounts fields = .ok read ∧ read.Perm counts := by
  let held (field : String × Json) : String × Int := (field.1, field.2.heldInteger)
  have hfields : countFields (fields.map held) = fields := by
    rw [countFields, List.map_map]
    refine List.map_congr_left (g := id) (fun field hfield => ?_) |>.trans (List.map_id _)
    obtain ⟨count, -, rfl⟩ := List.mem_map.mp (h.mem_iff.mp hfield)
    rfl
  refine ⟨fields.map held, ?_, ?_⟩
  · rw [← readCounts_countFields, hfields]
  · have hperm := h.map held
    rw [countFields, List.map_map] at hperm
    exact hperm.trans (List.Perm.of_eq (List.map_id _))

theorem Tally.set_comm {k l : String} (hk : k ∈ ["info", "warning", "error", "critical"])
    (hl : l ∈ ["info", "warning", "error", "critical"]) (h : k ≠ l) (t : Tally) (n m : Int) :
    (t.set k n).set l m = (t.set l m).set k n := by
  simp only [List.mem_cons, List.not_mem_nil, or_false] at hk hl
  rcases hk with rfl | rfl | rfl | rfl <;> rcases hl with rfl | rfl | rfl | rfl <;>
    first | rfl | exact absurd rfl h

/-- The counts of a tally of nothing but the severities can be set in any order. -/
theorem Tally.ofJson_sortFields {t : Tally} (h : t.others = []) :
    Tally.ofJson (sortFields t.toJson) = .ok t := by
  have hkeys : t.counts.map Prod.fst = ["info", "warning", "error", "critical"] := by
    rw [counts, h]
    rfl
  have hsorted := Yaml.perm_sorted (countFields t.counts)
  rw [map_sortValue_countFields] at hsorted
  obtain ⟨read, hread, hperm⟩ := readCounts_of_perm hsorted
  have hnodup : (read.map Prod.fst).Nodup :=
    (hperm.map Prod.fst).nodup_iff.mpr (orderly_of_others h)
  -- counts under different severities can be set in either order
  have hcomm : ∀ a ∈ read, ∀ b ∈ read, ∀ t : Tally,
      (t.set a.1 a.2).set b.1 b.2 = (t.set b.1 b.2).set a.1 a.2 := by
    intro a ha b hb t
    have hkey {c : String × Int} (hc : c ∈ read) :
        c.1 ∈ ["info", "warning", "error", "critical"] := by
      rw [← hkeys]
      exact List.mem_map_of_mem (hperm.mem_iff.mp hc)
    by_cases hab : a = b
    · rw [hab]
    · exact Tally.set_comm (hkey ha) (hkey hb)
        (fun hsame => hab (List.inj_on_of_nodup_map hnodup ha hb hsame)) t a.2 b.2
  rw [toJson_eq, Yaml.sortFields_object, map_sortValue_countFields, ofJson, hread, ok_bind,
    hperm.foldl_eq' hcomm, foldl_set_counts (orderly_of_others h), pure_eq_ok]

/-- The counts of a summary can be listed in any order. -/
theorem Summary.ofJson_sortFields {s : Summary} (h : s.tally.others = []) :
    Summary.ofJson (sortFields s.toJson) = .ok s := by
  obtain ⟨fields, hfields⟩ : ∃ fields, fields = countFields s.counts ++
    [(tallyField, s.tally.toJson)] := ⟨_, rfl⟩
  have hnodup : (fields.map Prod.fst).Nodup := by
    rw [hfields, List.map_append, map_fst_countFields]
    show (summaryFields ++ [tallyField]).Nodup
    decide
  have hcounts := (Yaml.perm_sorted fields).filter fun field => field.1 ≠ tallyField
  have hothers : (fields.map sortValue).filter (fun field => field.1 ≠ tallyField) =
      countFields s.counts := by
    rw [hfields]
    simp [countFields, counts, tallyField, sortValue]
  rw [hothers] at hcounts
  obtain ⟨read, hread, hperm⟩ := readCounts_of_perm hcounts
  have htally : Json.field? ((fields.map sortValue).mergeSort byName) tallyField =
      some (sortFields s.tally.toJson) := by
    rw [Yaml.field?_sorted hnodup, hfields]
    simp [countFields, counts, tallyField, Json.field?, List.lookup_cons]
  have hknown : read.all (fun count => count.1 ∈ summaryFields) = true := by
    rw [hperm.all_eq]
    simp [counts, summaryFields]
  have hreadNodup : (read.map Prod.fst).Nodup := by
    rw [(hperm.map Prod.fst).nodup_iff]
    show summaryFields.Nodup
    decide
  have hlookup (name : String) : read.lookup name = s.counts.lookup name :=
    Yaml.lookup_perm hperm hreadNodup name
  rw [toJson_eq, ← hfields, Yaml.sortFields_object, ofJson, hread, ok_bind, htally,
    Option.getD_some, Tally.ofJson_sortFields h, ok_bind, if_pos hknown]
  simp [hlookup, counts, List.lookup_cons, pure_eq_ok]

/-! ## Documents -/

/-- **A report is read from its document in order.** -/
theorem ofJson_sortFields (report : Report) (h : report.summary.tally.others = []) :
    Document.ofJson (sortFields report.toDocument.toJson) = .ok report.toDocument := by
  have hsummary := Summary.ofJson_sortFields h
  simp [-List.map_map, Document.ofJson, Document.toJson, get_sortFields, getOr_sortFields,
    Json.field?, List.lookup_cons, ok_bind, pure_eq_ok, Report.toDocument, ReportRecord.map,
    hsummary, readSection_sortFields RuleRecord.ofJson_sortFields,
    readSection_sortFields UnusedRecord.ofJson_sortFields,
    readSection_sortFields MetricsRecord.ofJson_sortFields,
    readSection_sortFields IssueRecord.ofJson_sortFields,
    readSection_sortFields HintRecord.ofJson_sortFields,
    readSection_sortFields DanglingRecord.ofJson_sortFields, toTime_real, Json.plain]

end GrammarAudit
