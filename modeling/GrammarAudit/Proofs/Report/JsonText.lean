import GrammarAudit.Proofs.Json.RoundTrip
import GrammarAudit.Proofs.Report.DocumentForm

/-!
# Reports survive their JSON text

The value of a report has distinct names in every object, and its only floating-point numbers are
the time and the duration of the analysis. So the text of that value holds the value, in every
layout, and the report is read back from it.

- `Timing.InFormat`: times that are numbers of the format.
- `proper_toJson`: the value of a report is one that a text can hold.
- `report_survives_text`: reports are read back from their text.
-/

namespace GrammarAudit

namespace Json

@[simp] theorem proper_str (s : String) : Proper (str s) := .str s

@[simp] theorem proper_int (n : Int) : Proper (int n) := .num trivial

@[simp] theorem proper_bool (b : Bool) : Proper (bool b) := .bool b

@[simp] theorem proper_list_iff {items : List Json} :
    Proper (list items) ↔ ∀ item ∈ items, Proper item := by
  constructor
  · intro h
    cases h with
    | list h => exact h
  · exact .list

@[simp] theorem proper_object_iff {fields : List (String × Json)} :
    Proper (object fields) ↔
      (fields.map Prod.fst).Nodup ∧ ∀ field ∈ fields, Proper field.2 := by
  constructor
  · intro h
    cases h with
    | object hnames h => exact ⟨hnames, h⟩
  · exact fun h => .object h.1 h.2

end Json

open Json (Proper)

/-! ## Records -/

theorem RuleRecord.proper_toJson (r : RuleRecord String Int) :
    Proper (r.map Json.str Json.int).toJson := by
  simp [RuleRecord.map, RuleRecord.toJson]

theorem UnusedRecord.proper_toJson (u : UnusedRecord String Int) :
    Proper (u.map Json.str Json.int).toJson := by
  simp [UnusedRecord.map, UnusedRecord.toJson]

theorem MetricsRecord.proper_toJson (m : MetricsRecord String Int) :
    Proper (m.map Json.str Json.int).toJson := by
  simp [MetricsRecord.map, MetricsRecord.toJson]

theorem IssueRecord.proper_toJson (i : IssueRecord String Int) :
    Proper (i.map Json.str Json.int).toJson := by
  simp [IssueRecord.map, IssueRecord.toJson]

theorem HintRecord.proper_toJson (h : HintRecord String Int) :
    Proper (h.map Json.str Json.int).toJson := by
  simp [HintRecord.map, HintRecord.toJson]

theorem DanglingRecord.proper_toJson (d : DanglingRecord String Int) :
    Proper (d.map Json.str Json.int).toJson := by
  simp [DanglingRecord.map, DanglingRecord.toJson]

theorem proper_countFields {counts : List (String × Int)} (h : (counts.map Prod.fst).Nodup) :
    Proper (.object (countFields counts)) := by
  refine .object (by rwa [map_fst_countFields]) fun field hfield => ?_
  obtain ⟨count, -, rfl⟩ := List.mem_map.mp hfield
  exact Json.proper_int count.2

theorem Tally.proper_toJson {t : Tally} (h : t.Orderly) : Proper t.toJson :=
  proper_countFields h

theorem Summary.proper_toJson {s : Summary} (h : s.tally.Orderly) : Proper s.toJson := by
  simp [Summary.toJson, Tally.proper_toJson h]

/-! ## Reports -/

/-- The times of an analysis are numbers of the format. -/
structure Timing.InFormat (timing : Timing) : Prop where
  timestamp : timing.timestamp.InFormat
  duration : timing.duration.InFormat

/-- Times that are given as decimals are numbers of the format. -/
theorem Timing.inFormat_ofDecimal (digits digits' : Nat) (exponent exponent' : Int) :
    Timing.InFormat ⟨.ofDecimal false digits exponent, .ofDecimal false digits' exponent'⟩ :=
  ⟨Double.inFormat_ofDecimal .., Double.inFormat_ofDecimal ..⟩

/-- The value of a report is one that a text can hold. -/
theorem proper_toJson (source : List Char) (o : Options) {timing : Timing}
    (htiming : timing.InFormat) : Proper (Report.of source o timing).toDocument.toJson := by
  have hsummary : Proper (Report.of source o timing).summary.toJson :=
    Summary.proper_toJson (orderly_of_report source o timing)
  have htimestamp : Proper (.num (.real (Report.of source o timing).timestamp)) :=
    .num htiming.timestamp
  have hduration : Proper (.num (.real (Report.of source o timing).duration)) :=
    .num htiming.duration
  generalize Report.of source o timing = report at *
  simp [Report.toDocument, ReportRecord.map, Document.toJson, hsummary, htimestamp, hduration,
    RuleRecord.proper_toJson, UnusedRecord.proper_toJson, MetricsRecord.proper_toJson,
    IssueRecord.proper_toJson, HintRecord.proper_toJson, DanglingRecord.proper_toJson]

/-- **Reports survive their JSON text.** The text of the document of an analysis, on one line or
with any indentation, is read back as that document, which no other report has. -/
theorem report_survives_text (source : List Char) (o : Options) (timing : Timing)
    (indent : Option Nat) (htiming : timing.InFormat) :
    let report := Report.of source o timing
    (Json.read? (report.toDocument.toJson.write indent)).map Document.ofJson =
        some (.ok report.toDocument) ∧
      ∀ other : Report, other.toDocument = report.toDocument → other = report := by
  intro report
  constructor
  · rw [Json.read?_write indent (proper_toJson source o htiming), Option.map_some,
      Document.ofJson_toJson (orderly_of_report source o timing)]
  · exact fun _ => toDocument_injective

/-- A rule with quotes, a backslash, a control character and a character of the astral planes. -/
theorem report_survives_quotes :
    let source := "a : '\\n' \"\u00e9\" '\x01\u2028' '😀' ;".toList
    let timing : Timing := ⟨.ofDecimal false 170000000025 (-2), .ofDecimal false 125 (-1)⟩
    let report := Report.of source {} timing
    timing.InFormat ∧ report.rules.map RuleRecord.text = [String.ofList source] ∧
      timing.duration.text = "12.5" ∧
      (Json.read? (report.toDocument.toJson.write (some 2))).map Document.ofJson =
        some (.ok report.toDocument) := by
  intro source timing report
  have htiming : timing.InFormat := Timing.inFormat_ofDecimal 170000000025 125 (-2) (-1)
  have htext : timing.duration.text = "12.5" := by decide +kernel
  have hrules : report.rules.map RuleRecord.text = [String.ofList source] := by decide +kernel
  exact ⟨htiming, hrules, htext,
    (report_survives_text source {} timing (some 2) htiming).1⟩

end GrammarAudit
