import GrammarAudit.Report.Document

/-!
# Reading what was written

The parts of a document are read back from the values that they are written as: the members of
closed sets by their names, the records of each section field by field, the sections entry by entry
and lists of counts.

- `eq_ok_of_toOption`, `ok_bind`: outcomes of reading.
- `toKind_label`, `toGrade_label`, `toSeverity_label`, `toCategory_label`: closed sets.
- `RuleRecord.ofJson_toJson` and its like: the records of a section.
- `readSection_toJson`: all records of a section.
- `readCounts_countFields`: counts.
-/

namespace GrammarAudit

/-! ## Outcomes -/

/-- A result that gives a value has succeeded with it. -/
theorem eq_ok_of_toOption {ε α : Type} {result : Except ε α} {a : α}
    (h : result.toOption = some a) : result = .ok a := by
  cases result with
  | ok b => exact congrArg Except.ok (Option.some.inj h)
  | error e => cases h

theorem ok_bind {α β : Type} (a : α) (next : α → Reading β) : (Except.ok a >>= next) = next a :=
  rfl

theorem pure_eq_ok {α : Type} (a : α) : (pure a : Reading α) = .ok a := rfl

/-- Two steps of reading succeed together. -/
theorem bind_eq_ok_iff {α β : Type} {first : Reading α} {next : α → Reading β} {b : β} :
    first >>= next = .ok b ↔ ∃ a, first = .ok a ∧ next a = .ok b := by
  cases first with
  | ok a => simp [ok_bind]
  | error e =>
    constructor
    · intro h
      cases h
    · rintro ⟨a, h, -⟩
      cases h

/-! ## Closed sets -/

theorem toKind_label (k : Kind) : Json.toKind (.str k.label) = .ok k := by
  cases k <;> rfl

theorem toGrade_label (g : Grade) : Json.toGrade (.str g.label) = .ok g := by
  cases g <;> rfl

theorem toSeverity_label (s : Severity) : Json.toSeverity (.str s.label) = .ok s := by
  cases s <;> rfl

theorem toCategory_label (c : Category) : Json.toCategory (.str c.label) = .ok c := by
  cases c <;> rfl

/-! ## Records -/

theorem RuleRecord.ofJson_toJson (r : RuleRecord Json Json) :
    RuleRecord.ofJson r.toJson = .ok r := by
  simp [ofJson, toJson, Json.get, Json.getOr, Json.field?, List.lookup_cons, Json.parts,
    toKind_label, ok_bind, pure_eq_ok]

theorem UnusedRecord.ofJson_toJson (u : UnusedRecord Json Json) :
    UnusedRecord.ofJson u.toJson = .ok u := by
  simp [ofJson, toJson, Json.get, Json.field?, List.lookup_cons, toKind_label, ok_bind, pure_eq_ok]

theorem MetricsRecord.ofJson_toJson (m : MetricsRecord Json Json) :
    MetricsRecord.ofJson m.toJson = .ok m := by
  simp [ofJson, toJson, Json.get, Json.field?, List.lookup_cons, Json.isTruthy, toKind_label,
    toGrade_label, ok_bind, pure_eq_ok]

theorem IssueRecord.ofJson_toJson (i : IssueRecord Json Json) :
    IssueRecord.ofJson i.toJson = .ok i := by
  simp [ofJson, toJson, Json.get, Json.field?, List.lookup_cons, toKind_label, toSeverity_label,
    toCategory_label, ok_bind, pure_eq_ok]

theorem HintRecord.ofJson_toJson (h : HintRecord Json Json) :
    HintRecord.ofJson h.toJson = .ok h := by
  simp [ofJson, toJson, Json.get, Json.field?, List.lookup_cons, Json.parts, ok_bind, pure_eq_ok]

theorem DanglingRecord.ofJson_toJson (d : DanglingRecord Json Json) :
    DanglingRecord.ofJson d.toJson = .ok d := by
  simp [ofJson, toJson, Json.field?, List.lookup_cons]

/-! ## Sections and counts -/

/-- A section is read back if each of its entries is. -/
theorem readSection_toJson {α : Type} {read : Json → Reading α} {toJson : α → Json}
    (h : ∀ a, read (toJson a) = .ok a) (entries : List α) :
    readSection read (.list (entries.map toJson)) = .ok entries := by
  show (entries.map toJson).mapM read = .ok entries
  induction entries with
  | nil => rfl
  | cons a entries ih => rw [List.map_cons, List.mapM_cons, h, ok_bind, ih, ok_bind, pure_eq_ok]

/-- Counts as the fields of an object. -/
def countFields (counts : List (String × Int)) : List (String × Json) :=
  counts.map fun (k, n) => (k, .int n)

theorem map_fst_countFields (counts : List (String × Int)) :
    (countFields counts).map Prod.fst = counts.map Prod.fst := by
  rw [countFields, List.map_map]
  rfl

/-- Counts are read back. -/
theorem readCounts_countFields (counts : List (String × Int)) :
    readCounts (countFields counts) = .ok counts := by
  induction counts with
  | nil => rfl
  | cons count counts ih =>
    obtain ⟨k, n⟩ := count
    have hread : readCounts (countFields ((k, n) :: counts)) =
        (do let rest ← readCounts (countFields counts); return (k, n) :: rest) := by
      rw [countFields, List.map_cons, readCounts, List.mapM_cons]
      rfl
    rw [hread, ih, ok_bind, pure_eq_ok]

/-- A time is read back. -/
theorem toTime_real (x : Double) : Json.toTime (.num (.real x)) = .ok x := rfl

end GrammarAudit
