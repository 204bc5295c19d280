import GrammarAudit.Proofs.Json.Fields
import GrammarAudit.Proofs.Report.Reading
import GrammarAudit.Report.Run

/-!
# Reports survive their document form

A document is written as a JSON value and read back. Reading puts some things in order: counts and
times that are given as texts become numbers, flags are decided, a text becomes the list of its
characters, a tally counts every severity. What it gives is in order once and for all: written and
read again, it is the same document. The document of a report of an analysis is in order to begin
with.

- `Tally.Orderly`: tallies that list no key twice; those that are read are such.
- `Tally.ofJson_toJson`, `Summary.ofJson_toJson`, `Document.ofJson_toJson`: what is written of a
  document with such a tally is read back.
- `toDocument_injective`: no two reports have one document.
- `document_survives`: reports, and whatever is read, survive.
-/

namespace GrammarAudit

/-! ## Tallies -/

namespace Tally

/-- The counts of a tally in the order in which they are written. -/
def counts (t : Tally) : List (String × Int) :=
  [("info", t.info), ("warning", t.warning), ("error", t.error), ("critical", t.critical)] ++
    t.others

/-- The tally lists no key twice. -/
def Orderly (t : Tally) : Prop :=
  (t.counts.map Prod.fst).Nodup

theorem counts_injective {t u : Tally} (h : t.counts = u.counts) : t = u := by
  simp only [counts, List.cons_append, List.nil_append, List.cons.injEq, Prod.mk.injEq, true_and]
    at h
  obtain ⟨hinfo, hwarning, herror, hcritical, hothers⟩ := h
  cases t
  cases u
  simp_all

/-- A count is set among the others. -/
theorem counts_set (t : Tally) (key : String) (n : Int) :
    (t.set key n).counts = Json.setField t.counts key n := by
  unfold Tally.set
  repeat' split
  all_goals simp_all [counts, Json.setField, eq_comm]

/-- Counts are set one after another. -/
theorem counts_foldl_set (t : Tally) (l : List (String × Int)) :
    (l.foldl (fun t (k, n) => t.set k n) t).counts =
      l.foldl (fun set (k, n) => Json.setField set k n) t.counts := by
  induction l generalizing t with
  | nil => rfl
  | cons count l ih =>
    rw [List.foldl_cons, List.foldl_cons, ih, counts_set]

/-- Counts that are set leave a tally orderly. -/
theorem Orderly.foldl_set {t : Tally} (h : t.Orderly) (l : List (String × Int)) :
    (l.foldl (fun t (k, n) => t.set k n) t).Orderly := by
  induction l generalizing t with
  | nil => exact h
  | cons count l ih =>
    refine ih ?_
    rw [Orderly, counts_set]
    exact Json.nodup_setField h _

/-- A tally of nothing but the severities is orderly. -/
theorem orderly_of_others {t : Tally} (h : t.others = []) : t.Orderly := by
  have hkeys : t.counts.map Prod.fst = ["info", "warning", "error", "critical"] := by
    rw [counts, h]
    rfl
  rw [Orderly, hkeys]
  decide

/-- An orderly tally is what its counts make of no findings. -/
theorem foldl_set_counts {t : Tally} (h : t.Orderly) :
    t.counts.foldl (fun t (k, n) => t.set k n) zero = t := by
  apply counts_injective
  rw [counts_foldl_set]
  -- the four severities are in place from the start, and the other keys come behind them
  exact Json.foldl_setField h

theorem toJson_eq (t : Tally) : t.toJson = .object (countFields t.counts) := rfl

theorem ofJson_toJson {t : Tally} (h : t.Orderly) : Tally.ofJson t.toJson = .ok t := by
  rw [toJson_eq, ofJson, readCounts_countFields, ok_bind, foldl_set_counts h, pure_eq_ok]

/-- A tally that is read is orderly. -/
theorem orderly_of_ofJson {v : Json} {t : Tally} (h : Tally.ofJson v = .ok t) : t.Orderly := by
  cases v with
  | object fields =>
    obtain ⟨counts, -, ht⟩ := bind_eq_ok_iff.mp h
    cases ht
    exact (orderly_of_others rfl).foldl_set counts
  | _ => cases h

end Tally

/-! ## Summaries -/

namespace Summary

/-- The counts of a summary beside its tally, in the order in which they are written. -/
def counts (s : Summary) : List (String × Int) := [
  ("total_rules", s.totalRules), ("parser_rules", s.parserRules), ("lexer_rules", s.lexerRules),
  ("fragment_rules", s.fragmentRules), ("unused_rules", s.unusedRules),
  ("high_complexity_rules", s.highComplexityRules), ("performance_issues", s.performanceIssues),
  ("ambiguity_hints", s.ambiguityHints)]

theorem toJson_eq (s : Summary) :
    s.toJson = .object (countFields s.counts ++ [(tallyField, s.tally.toJson)]) := rfl

theorem ofJson_toJson {s : Summary} (h : s.tally.Orderly) : Summary.ofJson s.toJson = .ok s := by
  have hcounts : (countFields s.counts ++ [(tallyField, s.tally.toJson)]).filter
      (fun field => field.1 ≠ tallyField) = countFields s.counts := by
    simp [countFields, counts, tallyField]
  have htally : Json.field? (countFields s.counts ++ [(tallyField, s.tally.toJson)]) tallyField =
      some s.tally.toJson := by
    simp [countFields, counts, tallyField, Json.field?, List.lookup_cons]
  rw [toJson_eq, ofJson, hcounts, readCounts_countFields, ok_bind, htally, Option.getD_some,
    Tally.ofJson_toJson h, ok_bind, if_pos (by simp [counts, summaryFields])]
  simp [counts, List.lookup_cons, pure_eq_ok]

theorem orderly_of_ofJson {v : Json} {s : Summary} (h : Summary.ofJson v = .ok s) :
    s.tally.Orderly := by
  cases v with
  | object fields =>
    obtain ⟨counts, -, h⟩ := bind_eq_ok_iff.mp h
    obtain ⟨tally, htally, h⟩ := bind_eq_ok_iff.mp h
    split at h
    · cases h
      exact Tally.orderly_of_ofJson htally
    · cases h
  | _ => cases h

end Summary

/-! ## Documents -/

namespace Document

theorem ofJson_toJson {d : Document} (h : d.summary.tally.Orderly) :
    Document.ofJson d.toJson = .ok d := by
  simp [ofJson, toJson, Json.get, Json.getOr, Json.field?, List.lookup_cons, ok_bind, pure_eq_ok,
    Summary.ofJson_toJson h, readSection_toJson RuleRecord.ofJson_toJson,
    readSection_toJson UnusedRecord.ofJson_toJson, readSection_toJson MetricsRecord.ofJson_toJson,
    readSection_toJson IssueRecord.ofJson_toJson, readSection_toJson HintRecord.ofJson_toJson,
    readSection_toJson DanglingRecord.ofJson_toJson, toTime_real, Json.plain]

/-- A document that is read has an orderly tally. -/
theorem orderly_of_ofJson {v : Json} {d : Document} (h : Document.ofJson v = .ok d) :
    d.summary.tally.Orderly := by
  obtain ⟨_, -, h⟩ := bind_eq_ok_iff.mp h
  obtain ⟨summary, hsummary, h⟩ := bind_eq_ok_iff.mp h
  -- nothing that is read later bears on the summary
  repeat obtain ⟨_, -, h⟩ := bind_eq_ok_iff.mp h
  cases h
  exact Summary.orderly_of_ofJson hsummary

end Document

/-! ## Reports -/

section LeftInverse

variable {Txt Num Txt' Num' : Type} {f : Txt → Txt'} {g : Num → Num'} {f' : Txt' → Txt}
  {g' : Num' → Num}

theorem map_map_of_leftInverse (hf : ∀ a, f' (f a) = a) (l : List Txt) : (l.map f).map f' = l := by
  rw [List.map_map]
  exact List.map_id'' hf l

/-- A report whose leaves can be put back can be put back itself. -/
theorem ReportRecord.map_map_of_leftInverse (hf : ∀ a, f' (f a) = a) (hg : ∀ n, g' (g n) = n)
    (report : ReportRecord Txt Num) : (report.map f g).map f' g' = report := by
  have htexts := GrammarAudit.map_map_of_leftInverse hf
  have hnumbers := GrammarAudit.map_map_of_leftInverse hg
  have hrules (r : RuleRecord Txt Num) : (r.map f g).map f' g' = r := by
    simp only [RuleRecord.map, hf, hg, htexts]
  have hunused (u : UnusedRecord Txt Num) : (u.map f g).map f' g' = u := by
    simp only [UnusedRecord.map, hf, hg]
  have hmetrics (m : MetricsRecord Txt Num) : (m.map f g).map f' g' = m := by
    simp only [MetricsRecord.map, hf, hg]
  have hissues (i : IssueRecord Txt Num) : (i.map f g).map f' g' = i := by
    simp only [IssueRecord.map, hf, hg]
  have hhints (h : HintRecord Txt Num) : (h.map f g).map f' g' = h := by
    simp only [HintRecord.map, hf, hg, htexts, hnumbers]
  have hdangling (d : DanglingRecord Txt Num) : (d.map f g).map f' g' = d := by
    simp only [DanglingRecord.map, hf, hg]
  simp only [ReportRecord.map, GrammarAudit.map_map_of_leftInverse hrules,
    GrammarAudit.map_map_of_leftInverse hunused, GrammarAudit.map_map_of_leftInverse hmetrics,
    GrammarAudit.map_map_of_leftInverse hissues, GrammarAudit.map_map_of_leftInverse hhints,
    GrammarAudit.map_map_of_leftInverse hdangling]

end LeftInverse

/-- The text that a value holds. -/
def Json.heldText : Json → String
  | .str s => s
  | _ => ""

/-- The integer that a value holds. -/
def Json.heldInteger : Json → Int
  | .num (.int n) => n
  | _ => 0

/-- No two reports have one document. -/
theorem toDocument_injective {report report' : Report}
    (h : report.toDocument = report'.toDocument) : report = report' := by
  have hback (r : Report) : r.toDocument.map Json.heldText Json.heldInteger = r :=
    ReportRecord.map_map_of_leftInverse (fun _ => rfl) (fun _ => rfl) r
  rw [← hback report, h, hback report']

/-- The tally of an analysis counts nothing but the severities. -/
theorem orderly_of_report (source : List Char) (o : Options) (timing : Timing) :
    (Report.of source o timing).toDocument.summary.tally.Orderly := by
  show (Tally.ofFindings _ _ _).Orderly
  exact Tally.orderly_of_others rfl

/-- **Reports survive their document form.** What is written of the document of an analysis is read
back as that document, which no other report has. Whatever value a document is read from, writing
that document and reading it again changes nothing any more. -/
theorem document_survives :
    (∀ source o timing, let report := Report.of source o timing
      Document.ofJson report.toDocument.toJson = .ok report.toDocument ∧
        ∀ other : Report, other.toDocument = report.toDocument → other = report) ∧
    ∀ value document, Document.ofJson value = .ok document →
      Document.ofJson document.toJson = .ok document := by
  constructor
  · intro source o timing
    exact ⟨Document.ofJson_toJson (orderly_of_report source o timing),
      fun _ => toDocument_injective⟩
  · intro value document h
    exact Document.ofJson_toJson (Document.orderly_of_ofJson h)

/-- A value with a count and a time as texts, a tally of another key, flags that are no flags, and a
text where a list is expected. -/
theorem document_survives_odd_value :
    let value : Json := .object [
      ("summary", .object [("total_rules", .str " 1_2 "),
        ("issues_by_severity", .object [("note", .bool true), ("error", .num (.int 1))])]),
      ("rules", .list [.object [("name", .str "a"), ("type", .str "parser"), ("line", .str "one"),
        ("column", .null), ("end_line", .int 1), ("end_column", .int 2), ("text", .str "a : b c ;"),
        ("alternative_count", .bool true), ("references", .str "bc")]]),
      ("unused_rules", .object []),
      ("complexity", .list [.object [("name", .str "a"), ("type", .str "parser"), ("line", .int 1),
        ("depth", .int 0), ("alternatives", .int 1), ("reference_count", .int 2),
        ("directly_recursive", .str "no"), ("indirectly_recursive", .list []),
        ("lookahead", .int 1), ("score", .str "low"), ("complexity_value", .int 11)]]),
      ("performance_issues", .list []), ("ambiguity_hints", .str ""), ("timestamp", .int 3),
      ("duration", .str " 5e-324 "), ("grammar_hash", .null)]
    ∃ document, Document.ofJson value = .ok document ∧
      document.summary.totalRules = 12 ∧ document.summary.tally = ⟨0, 0, 1, 0, [("note", 1)]⟩ ∧
      document.duration = .finite false 1 ∧ document.fingerprint = "None" ∧
      Document.ofJson document.toJson = .ok document := by
  intro value
  let document : Document :=
    { summary := ⟨12, 0, 0, 0, 0, 0, 0, 0, ⟨0, 0, 1, 0, [("note", 1)]⟩⟩
      rules := [⟨.str "a", .parser, .str "one", .null, .int 1, .int 2, .str "a : b c ;", .bool true,
        [.str "b", .str "c"], []⟩]
      unused := []
      complexity := [⟨.str "a", .parser, .int 1, .int 0, .int 1, .int 2, true, false, .int 1, .low,
        .int 11⟩]
      issues := []
      hints := []
      dangling := []
      timestamp := .ofInt 3
      duration := .finite false 1
      fingerprint := "None" }
  have hread : Document.ofJson value = .ok document := eq_ok_of_toOption (by decide +kernel)
  exact ⟨document, hread, rfl, rfl, rfl, rfl, document_survives.2 value document hread⟩

end GrammarAudit
