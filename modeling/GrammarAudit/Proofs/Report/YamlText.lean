import GrammarAudit.Proofs.Report.JsonText
import GrammarAudit.Proofs.Report.Reordered
import GrammarAudit.Proofs.Report.Texts

/-!
# Reports in their YAML text

The value of a report can be written in block style, and what is written is read back as the report,
but for the texts that the writer puts between single quotes although they hold a next line.

- `readBack_eq_self_iff`: the texts that survive.
- `documentFields_toJson`: the value of a report is one that block style holds.
- `mapTexts_toJson`: its texts are replaced where the report has them.
- `report_survives_yaml_iff`: what is read back, and when it is the report.
-/

namespace GrammarAudit

open Yaml (Blocks IsName nextLine needsDouble readBack scalarStyle settle)

/-! ## Texts that survive -/

theorem readBack_of_not_mem {s : String} (h : nextLine ∉ s.toList) : readBack s = s := by
  rw [readBack, Yaml.settle_of_not_mem h, String.ofList_toList, ite_self]

/-- A text survives exactly if it holds no next line or is put between double quotes. -/
theorem readBack_eq_self_iff {s : String} :
    readBack s = s ↔ (nextLine ∈ s.toList → needsDouble s.toList = true) := by
  constructor
  · intro h hnext
    have hplain : ¬Yaml.isPlainText s.toList = true := fun hplain =>
      absurd ((Yaml.plainForm_of_isPlainText hplain).calm _ hnext).2 (by decide)
    by_contra hdouble
    have hsingle : scalarStyle s.toList = .single := by
      rw [scalarStyle, if_neg hplain, if_neg hdouble]
    have hsettle := congrArg String.toList h
    rw [readBack, if_pos hsingle, String.toList_ofList] at hsettle
    exact Yaml.settle_eq_self_iff.mp hsettle hnext
  · intro h
    obtain ⟨hplain, -⟩ | ⟨-, hsingle⟩ | hdouble := Yaml.scalarStyle_cases s.toList
    · rw [readBack, hplain]
      rfl
    · refine readBack_of_not_mem fun hnext => ?_
      rw [h hnext] at hsingle
      cases hsingle
    · rw [readBack, hdouble]
      rfl

/-! ## Sources without a next line -/

/-- The next line is the small form of no capital. -/
theorem caseRuns_avoid_nextLine : ∀ run ∈ Text.caseRuns,
    run.small + (run.last - run.first) < 0x85 ∨ 0x85 < run.small := by
  decide +kernel

theorem ofNat_ne_nextLine {n : Nat} (h : n ≠ 0x85) : Char.ofNat n ≠ nextLine := by
  intro hsame
  have hcode : (Char.ofNat n).toNat = 0x85 := congrArg Char.toNat hsame
  by_cases hn : n.isValidChar
  · have hkept : (Char.ofNat n).toNat = n := congrArg Char.toNat (dif_pos hn)
    exact h (hkept.symm.trans hcode)
  · have hzero : (Char.ofNat n).toNat = 0 := congrArg Char.toNat (dif_neg hn)
    cases hzero.symm.trans hcode

theorem nextLine_not_mem_lowerChar {c : Char} (h : c ≠ nextLine) :
    nextLine ∉ Text.lowerChar c := by
  unfold Text.lowerChar
  split
  · decide
  split
  · next n hn =>
    obtain ⟨run, hrun, hsmall⟩ := List.exists_of_findSome?_eq_some hn
    have havoid := caseRuns_avoid_nextLine run hrun
    unfold Text.CaseRun.lower? at hsmall
    split at hsmall
    · next hin =>
      obtain ⟨-, hlast, -⟩ := hin
      have hne : n ≠ 0x85 := by
        rw [← Option.some.inj hsmall]
        omega
      exact fun hmem => ofNat_ne_nextLine hne (List.mem_singleton.mp hmem).symm
    · cases hsmall
  · exact fun hmem => h (List.mem_singleton.mp hmem).symm

theorem nextLine_not_mem_lower {s : List Char} (h : nextLine ∉ s) : nextLine ∉ Text.lower s := by
  have hafter (before : List Char) : nextLine ∉ Text.lowerAfter before s := by
    induction s generalizing before with
    | nil => exact List.not_mem_nil
    | cons c rest ih =>
      rw [List.mem_cons, not_or] at h
      rw [Text.lowerAfter, List.mem_append, not_or]
      refine ⟨?_, ih h.2 _⟩
      split
      · split
        · decide
        · decide
      · exact nextLine_not_mem_lowerChar (Ne.symm h.1)
  exact hafter []

/-- The other characters are an alphabet. -/
theorem alphabet_ne_nextLine : Alphabet (· ≠ nextLine) where
  ascii _ hc := by
    rintro rfl
    exact absurd hc (by decide)
  lower s hs c hc := by
    rintro rfl
    exact nextLine_not_mem_lower (fun hmem => hs _ hmem rfl) hc

/-- Reports show no next line but those of their sources. -/
theorem nextLine_not_mem_texts {source : List Char} (h : nextLine ∉ source) (o : Options)
    (timing : Timing) : ∀ text ∈ (Report.of source o timing).texts, nextLine ∉ text.toList :=
  fun text htext hmem => over_texts alphabet_ne_nextLine
    (fun _ hc hnext => h (hnext ▸ hc)) o timing text htext nextLine hmem rfl

/-! ## Values that block style holds -/

section Blocks

variable {column : Nat} {fields : List (String × Json)}

/-- Names that the fields of one object can have. -/
def FieldNames (names : List String) : Prop :=
  names.Nodup ∧ ∀ name ∈ names, IsName name.toList

instance (names : List String) : Decidable (FieldNames names) :=
  inferInstanceAs (Decidable (_ ∧ _))

theorem blocks_object (names : List String) (hfields : fields.map Prod.fst = names)
    (hnames : FieldNames names) (hne : fields ≠ [])
    (h : ∀ field ∈ fields, Blocks (column + 2) field.2) : Blocks column (.object fields) := by
  rw [← hfields] at hnames
  exact .object hne hnames.1 (fun field hfield => hnames.2 _ (List.mem_map_of_mem hfield)) h

@[simp] theorem blocks_int (n : Int) : Blocks column (.int n) := .leaf (.num trivial)

@[simp] theorem blocks_bool (b : Bool) : Blocks column (.bool b) := .leaf (.bool b)

@[simp] theorem blocks_str (s : String) (h : column + 2 < 80) : Blocks column (.str s) :=
  .leaf (.str s h)

/-- A list can be written if its items can be, and none of them is a list. -/
theorem blocks_map {α : Type} {toJson : α → Json} (hflat : ∀ a inner, toJson a ≠ .list inner)
    (h : ∀ a, Blocks column (toJson a)) (entries : List α) :
    Blocks column (.list (entries.map toJson)) := by
  refine .list (fun item hitem => ?_) fun item hitem => ?_
  · obtain ⟨a, -, rfl⟩ := List.mem_map.mp hitem
    exact hflat a
  · obtain ⟨a, -, rfl⟩ := List.mem_map.mp hitem
    exact h a

@[simp] theorem blocks_strs (l : List String) (h : column + 2 < 80) :
    Blocks column (.list (l.map Json.str)) :=
  blocks_map (fun _ _ => Json.noConfusion) (fun s => blocks_str s h) l

@[simp] theorem blocks_ints (l : List Int) : Blocks column (.list (l.map Json.int)) :=
  blocks_map (fun _ _ => Json.noConfusion) blocks_int l

theorem RuleRecord.blocks_toJson (r : RuleRecord String Int) :
    Blocks 0 (r.map Json.str Json.int).toJson := by
  refine blocks_object ["name", "type", "line", "column", "end_line", "end_column", "text",
    "alternative_count", "references", "referenced_by"] rfl (by decide +kernel)
    (List.cons_ne_nil _ _) ?_
  simp [RuleRecord.map]

theorem UnusedRecord.blocks_toJson (u : UnusedRecord String Int) :
    Blocks 0 (u.map Json.str Json.int).toJson := by
  refine blocks_object ["name", "type", "line", "column", "suggestion"] rfl (by decide +kernel)
    (List.cons_ne_nil _ _) ?_
  simp [UnusedRecord.map]

theorem MetricsRecord.blocks_toJson (m : MetricsRecord String Int) :
    Blocks 0 (m.map Json.str Json.int).toJson := by
  refine blocks_object ["name", "type", "line", "depth", "alternatives", "reference_count",
    "directly_recursive", "indirectly_recursive", "lookahead", "score", "complexity_value"] rfl
    (by decide +kernel) (List.cons_ne_nil _ _) ?_
  simp [MetricsRecord.map]

theorem IssueRecord.blocks_toJson (i : IssueRecord String Int) :
    Blocks 0 (i.map Json.str Json.int).toJson := by
  refine blocks_object ["rule", "type", "line", "column", "severity", "issue", "description",
    "suggestion", "category"] rfl (by decide +kernel) (List.cons_ne_nil _ _) ?_
  simp [IssueRecord.map]

theorem HintRecord.blocks_toJson (h : HintRecord String Int) :
    Blocks 0 (h.map Json.str Json.int).toJson := by
  refine blocks_object ["rule", "line", "alternative_indices", "common_prefix", "description"] rfl
    (by decide +kernel) (List.cons_ne_nil _ _) ?_
  simp [HintRecord.map]

theorem DanglingRecord.blocks_toJson (d : DanglingRecord String Int) :
    Blocks 0 (d.map Json.str Json.int).toJson := by
  refine blocks_object ["rule", "name", "line", "column"] rfl (by decide +kernel)
    (List.cons_ne_nil _ _) ?_
  simp [DanglingRecord.map]

theorem Tally.blocks_toJson {t : Tally} (h : t.others = []) : Blocks 2 t.toJson := by
  refine blocks_object ["info", "warning", "error", "critical"] ?_ (by decide +kernel)
    (List.cons_ne_nil _ _) ?_
  · rw [h]
    rfl
  · simp [h]

theorem Summary.blocks_toJson {s : Summary} (h : s.tally.others = []) : Blocks 0 s.toJson := by
  refine blocks_object (summaryFields ++ [tallyField]) rfl (by decide +kernel)
    (List.cons_ne_nil _ _) ?_
  simp [Tally.blocks_toJson h]

/-- A section can be written if each of its entries can be, and none of them is a list. -/
theorem blocks_section {α β : Type} {f : α → β} {toJson : β → Json}
    (hflat : ∀ b inner, toJson b ≠ .list inner) (h : ∀ a, Blocks column (toJson (f a)))
    (entries : List α) : Blocks column (.list ((entries.map f).map toJson)) := by
  rw [List.map_map]
  exact blocks_map (fun a => hflat (f a)) h entries

end Blocks

/-- **The value of a report is one that block style holds.** -/
theorem documentFields_toJson {report : Report} (htally : report.summary.tally.others = [])
    (htimestamp : report.timestamp.InFormat) (hduration : report.duration.InFormat) :
    ∃ fields, report.toDocument.toJson = .object fields ∧ Yaml.DocumentFields fields := by
  refine ⟨_, rfl, ?_⟩
  have hnames : FieldNames ["summary", "rules", "unused_rules", "complexity", "performance_issues",
      "ambiguity_hints", "unresolved_references", "timestamp", "duration", "grammar_hash"] := by
    decide +kernel
  refine ⟨List.cons_ne_nil _ _, hnames.1, fun field hfield => ?_, ?_⟩
  · exact hnames.2 _ (List.mem_map_of_mem (f := Prod.fst) hfield)
  · show ∀ field ∈ _ :: _, _
    simp only [List.forall_mem_cons]
    exact ⟨Summary.blocks_toJson htally,
      blocks_section (fun _ _ => Json.noConfusion) RuleRecord.blocks_toJson report.rules,
      blocks_section (fun _ _ => Json.noConfusion) UnusedRecord.blocks_toJson report.unused,
      blocks_section (fun _ _ => Json.noConfusion) MetricsRecord.blocks_toJson report.complexity,
      blocks_section (fun _ _ => Json.noConfusion) IssueRecord.blocks_toJson report.issues,
      blocks_section (fun _ _ => Json.noConfusion) HintRecord.blocks_toJson report.hints,
      blocks_section (fun _ _ => Json.noConfusion) DanglingRecord.blocks_toJson report.dangling,
      .leaf (.num htimestamp), .leaf (.num hduration), blocks_str _ (by decide), nofun⟩

/-! ## Replacing texts -/

@[simp] theorem readBack_kind (k : Kind) : readBack k.label = k.label :=
  readBack_of_not_mem (by cases k <;> decide)

@[simp] theorem readBack_grade (g : Grade) : readBack g.label = g.label :=
  readBack_of_not_mem (by cases g <;> decide)

@[simp] theorem readBack_severity (s : Severity) : readBack s.label = s.label :=
  readBack_of_not_mem (by cases s <;> decide)

@[simp] theorem readBack_category (c : Category) : readBack c.label = c.label :=
  readBack_of_not_mem (by cases c <;> decide)

/-- A fingerprint is written in hexadecimal digits. -/
@[simp] theorem readBack_fingerprint (source : List Char) :
    readBack (fingerprint source) = fingerprint source := by
  have hdigits (n : Nat) : nextLine ∉ Text.natNumeral 16 n := by
    intro hnext
    exact absurd ((Text.isHexNumeral_natNumeral n).mem_digits _ hnext) (by decide)
  refine readBack_of_not_mem ?_
  rw [fingerprint, unitsFingerprint, String.toList_ofList]
  cases signedWord (hashWord (Text.units source)) with
  | ofNat n => exact hdigits n
  | negSucc n =>
    rw [Text.intNumeral, List.mem_cons, not_or]
    exact ⟨by decide, hdigits (n + 1)⟩

theorem RuleRecord.mapTexts_toJson (r : RuleRecord String Int) :
    (r.map Json.str Json.int).toJson.mapTexts readBack =
      ((r.map readBack id).map Json.str Json.int).toJson := by
  simp [RuleRecord.map, toJson]

theorem UnusedRecord.mapTexts_toJson (u : UnusedRecord String Int) :
    (u.map Json.str Json.int).toJson.mapTexts readBack =
      ((u.map readBack id).map Json.str Json.int).toJson := by
  simp [UnusedRecord.map, toJson]

theorem MetricsRecord.mapTexts_toJson (m : MetricsRecord String Int) :
    (m.map Json.str Json.int).toJson.mapTexts readBack =
      ((m.map readBack id).map Json.str Json.int).toJson := by
  simp [MetricsRecord.map, toJson]

theorem IssueRecord.mapTexts_toJson (i : IssueRecord String Int) :
    (i.map Json.str Json.int).toJson.mapTexts readBack =
      ((i.map readBack id).map Json.str Json.int).toJson := by
  simp [IssueRecord.map, toJson]

theorem HintRecord.mapTexts_toJson (h : HintRecord String Int) :
    (h.map Json.str Json.int).toJson.mapTexts readBack =
      ((h.map readBack id).map Json.str Json.int).toJson := by
  simp [HintRecord.map, toJson]

theorem DanglingRecord.mapTexts_toJson (d : DanglingRecord String Int) :
    (d.map Json.str Json.int).toJson.mapTexts readBack =
      ((d.map readBack id).map Json.str Json.int).toJson := by
  simp [DanglingRecord.map, toJson]

theorem Summary.mapTexts_toJson (s : Summary) (f : String → String) :
    s.toJson.mapTexts f = s.toJson := by
  simp [toJson, Tally.toJson]

/-- A report as it is read back from its text. -/
def Report.readBack (report : Report) : Report :=
  report.map Yaml.readBack id

/-- **The texts in the value of a report** are replaced where the report has them. -/
theorem mapTexts_toJson {report : Report}
    (hfingerprint : readBack report.fingerprint = report.fingerprint) :
    report.toDocument.toJson.mapTexts readBack = report.readBack.toDocument.toJson := by
  simp [Report.readBack, Report.toDocument, ReportRecord.map, Document.toJson, Function.comp_def,
    Summary.mapTexts_toJson, RuleRecord.mapTexts_toJson, UnusedRecord.mapTexts_toJson,
    MetricsRecord.mapTexts_toJson, IssueRecord.mapTexts_toJson, HintRecord.mapTexts_toJson,
    DanglingRecord.mapTexts_toJson, hfingerprint]

/-! ## Reading back -/

/-- The document that a text holds. -/
def Document.ofYaml? (text : String) : Option Document :=
  (Yaml.read? text).bind fun value => (Document.ofJson value).toOption

theorem ofYaml?_write {report : Report} (htally : report.summary.tally.others = [])
    (hfingerprint : readBack report.fingerprint = report.fingerprint)
    (htimestamp : report.timestamp.InFormat) (hduration : report.duration.InFormat) :
    Document.ofYaml? (Yaml.write report.toDocument.toJson) = some report.readBack.toDocument := by
  obtain ⟨fields, hfields, hdocument⟩ := documentFields_toJson htally htimestamp hduration
  rw [Document.ofYaml?, hfields, Yaml.read?_write hdocument, ← hfields, Yaml.mapTexts_sortFields,
    mapTexts_toJson hfingerprint, Option.bind_some, ofJson_sortFields report.readBack htally]
  rfl

/-- **What is read back of a report** is the report with its texts read back. -/
theorem ofYaml?_report (source : List Char) (o : Options) {timing : Timing}
    (htiming : timing.InFormat) :
    let report := Report.of source o timing
    Document.ofYaml? (Yaml.write report.toDocument.toJson) = some report.readBack.toDocument :=
  ofYaml?_write rfl (readBack_fingerprint source) htiming.timestamp htiming.duration

/-- The next lines of a report are escaped: the texts that hold them are put between double
quotes. -/
def EscapesNextLines (report : Report) : Prop :=
  ∀ text ∈ report.texts, nextLine ∈ text.toList → needsDouble text.toList = true

instance (report : Report) : Decidable (EscapesNextLines report) :=
  inferInstanceAs (Decidable (∀ text ∈ report.texts, _ → _))

theorem readBack_toDocument_eq_iff {report : Report} :
    report.readBack.toDocument = report.toDocument ↔ EscapesNextLines report := by
  have hsame : report.readBack.toDocument = report.toDocument ↔ report.readBack = report :=
    ⟨toDocument_injective, congrArg Report.toDocument⟩
  rw [hsame, Report.readBack, ReportRecord.map_eq_self_iff]
  simp only [readBack_eq_self_iff, EscapesNextLines]

end GrammarAudit
