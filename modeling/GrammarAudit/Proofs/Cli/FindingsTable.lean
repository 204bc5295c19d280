import GrammarAudit.Proofs.Cli.ExitStatus
import GrammarAudit.Proofs.Json.NumberText
import GrammarAudit.Proofs.Report.Accounting

/-!
# The table of findings and the line of counts

An analysis that gives tables lists the findings of four sections with their severities, and ends
with a line that counts the severities. The line takes its counts from the summary, which knows
three of the sections: mentions of undefined names are listed as information and not counted.

- `rowsTitled`, `rowsWith`: the rows of a table by its title, and how many show a severity.
- `countsLine`: the line of counts.
- `rowsWith_showTables`: the rows of a report with a severity.
- `countsLine_of_analysis`: when the line counts the rows.
-/

namespace GrammarAudit.Cli

open Text

/-! ## What is shown -/

/-- The rows of the tables of a title among what is shown. -/
def rowsTitled (title : String) (shown : List Display) : List (List String) :=
  shown.flatMap fun
    | .table t => if t.title = some title then t.rows else []
    | _ => []

/-- The number of findings that are shown with a severity. -/
def rowsWith (shown : List Display) (s : Severity) : Nat :=
  (rowsTitled "Findings" shown).countP fun row => row.head? = some (styled s.style s.capitals)

/-- The line that shows a count for each severity. -/
def countsLine (count : Severity → Int) : String :=
  "\n" ++ styled "bold" "Summary:" ++ " " ++ decimal (count .critical) ++ " critical, " ++
    decimal (count .error) ++ " error(s), " ++ decimal (count .warning) ++ " warning(s), " ++
    decimal (count .info) ++ " info"

theorem tallyLine_eq (report : Report) :
    report.tallyLine = countsLine report.summary.tally.count := rfl

/-! ## Counts in the line -/

/-- No two counts are shown alike. -/
theorem decimal_natCast_inj {m n : Nat} (h : decimal (m : Int) = decimal (n : Int)) : m = n := by
  have hdigits : natNumeral 10 m = natNumeral 10 n := String.ofList_inj.mp h
  rw [← Json.decimalValue_natNumeral m, hdigits, Json.decimalValue_natNumeral]

/-- Lines that differ in nothing but the count of information show which it is. -/
theorem info_of_countsLine {count count' : Severity → Int}
    (h : countsLine count = countsLine count') (hcritical : count .critical = count' .critical)
    (herror : count .error = count' .error) (hwarning : count .warning = count' .warning) :
    decimal (count .info) = decimal (count' .info) := by
  unfold countsLine at h
  rw [hcritical, herror, hwarning] at h
  simpa using h

/-! ## Rows of findings -/

/-- No two severities are shown alike. -/
theorem styled_severity_inj {s s' : Severity}
    (h : styled s.style s.capitals = styled s'.style s'.capitals) : s = s' := by
  revert h
  cases s <;> cases s' <;> decide +kernel

/-- The table of findings is the only one of its title, and is shown unless it is empty. -/
theorem rowsTitled_showTables (report : Report) (file : String) :
    rowsTitled "Findings" (showTables report file) = report.findings.map Finding.row := by
  have hoverview : (report.overview file).title ≠ some "Findings" := by
    intro h
    have hletters := congrArg String.toList (Option.some.inj h)
    rw [String.toList_append] at hletters
    exact absurd (List.cons.inj hletters).1 (by decide)
  have hfigures : rowsTitled "Findings"
      (if report.complexity = [] then [] else [.table report.complexityTable]) = [] := by
    split
    · rfl
    · simp [rowsTitled, ReportRecord.complexityTable]
  have hfindings : rowsTitled "Findings" [if report.findings = [] then
      .message (styled "green" "OK" ++ " " ++ escape file ++ ": no issues found")
      else .table report.findingsTable] = report.findings.map Finding.row := by
    split
    · next h =>
      rw [h]
      rfl
    · simp [rowsTitled, ReportRecord.findingsTable]
  have hsplit (l l' : List Display) : rowsTitled "Findings" (l ++ l') =
      rowsTitled "Findings" l ++ rowsTitled "Findings" l' := List.flatMap_append
  have hshown : showTables report file = [.table (report.overview file)] ++
      [if report.findings = [] then
        .message (styled "green" "OK" ++ " " ++ escape file ++ ": no issues found")
        else .table report.findingsTable] ++
      (if report.complexity = [] then [] else [.table report.complexityTable]) ++
      [.message report.tallyLine] := by
    simp only [showTables, List.cons_append, List.nil_append]
  rw [hshown, hsplit, hsplit, hsplit, hfindings, hfigures]
  simp [rowsTitled, hoverview]

/-- The findings of a severity: issues have their own, unused rules are warnings, and hints and
mentions of undefined names are information. -/
theorem countP_findings (report : Report) (s : Severity) :
    report.findings.countP (fun f => f.severity = s) =
      countIssues report.issues s + (if s = .warning then report.unused.length else 0) +
        (if s = .info then report.hints.length else 0) +
          (if s = .info then report.dangling.length else 0) := by
  have hsection {α : Type} (l : List α) (finding : α → Finding) (severity : Severity)
      (h : ∀ a, (finding a).severity = severity) :
      (l.map finding).countP (fun f => f.severity = s) = if s = severity then l.length else 0 := by
    rw [List.countP_map]
    simp only [Function.comp_def, h, eq_comm (a := severity)]
    split
    · next hs => simp [hs]
    · next hs => simp [hs]
  have hissues : (report.issues.map Finding.ofIssue).countP (fun f => f.severity = s) =
      countIssues report.issues s := List.countP_map
  unfold ReportRecord.findings
  rw [List.countP_append, List.countP_append, List.countP_append, hissues,
    hsection _ Finding.ofUnused .warning fun _ => rfl,
    hsection _ (Finding.ofHint report) .info fun _ => rfl,
    hsection _ Finding.ofDangling .info fun _ => rfl]
  omega

/-- The rows that a report shows with a severity: as many as its tally counts, and with them, as
information, the mentions of undefined names. -/
theorem rowsWith_showTables {report : Report} (h : AddsUp report) (file : String) (s : Severity) :
    (rowsWith (showTables report file) s : Int) =
      report.summary.tally.count s + (if s = .info then report.dangling.length else 0) := by
  have hrow (f : Finding) : f.row.head? = some (styled f.severity.style f.severity.capitals) := rfl
  have hsame (f : Finding) : (some (styled f.severity.style f.severity.capitals) =
      some (styled s.style s.capitals)) ↔ f.severity = s :=
    ⟨fun h => styled_severity_inj (Option.some.inj h), fun h => by rw [h]⟩
  have hrows : rowsWith (showTables report file) s =
      report.findings.countP fun f => f.severity = s := by
    unfold rowsWith
    rw [rowsTitled_showTables, List.countP_map]
    simp only [Function.comp_def, hrow, hsame]
  rw [hrows, countP_findings, h.tally s, countIssues, List.countP_eq_length_filter]
  push_cast
  rfl

/-! ## Analyses -/

/-- The arguments ask for an analysis with tables: the source of the file and the options are found,
and every rule can be graded. -/
structure ShowsTables (arguments : List String) (s : Surroundings) (call : AnalysisCall)
    (source : List Char) (o : Options) : Prop where
  parsed : Invocation.ofArguments arguments = .ok (.analyze call)
  tables : call.format = .table
  readable : s.readText call.file "File not found" = .ok source
  valid : call.options s = .ok o
  gradable : cannotGrade source o = false

theorem shown_of_showsTables {arguments : List String} {s : Surroundings} {call : AnalysisCall}
    {source : List Char} {o : Options} (h : ShowsTables arguments s call source o) :
    (outcomeOf arguments s).shown = showTables (Report.of source o s.timing) call.file := by
  have houtcome : call.outcome s = .ok
      { shown := showTables (Report.of source o s.timing) call.file
        ending := if (Report.of source o s.timing).hasErrors then .failure else .success } := by
    unfold AnalysisCall.outcome
    rw [h.readable, h.valid]
    show (if cannotGrade source o then _ else if call.format = .table then _ else _) = _
    rw [h.gradable, if_neg Bool.false_ne_true, if_pos h.tables]
    rfl
  unfold outcomeOf
  rw [h.parsed]
  show (Invocation.outcome (.analyze call) s).shown = _
  unfold Invocation.outcome
  dsimp only
  rw [houtcome]

/-- **When the line counts the rows**: the line at the end shows the tally of the report, which
falls short of the rows by the mentions of undefined names. So it counts the rows of every severity
exactly if none is listed, in particular whenever they are not looked for. -/
theorem countsLine_of_analysis {arguments : List String} {s : Surroundings} {call : AnalysisCall}
    {source : List Char} {o : Options} (h : ShowsTables arguments s call source o) :
    let report := Report.of source o s.timing
    let shown := (outcomeOf arguments s).shown
    shown.getLast? = some (.message (countsLine report.summary.tally.count)) ∧
      (∀ severity, (rowsWith shown severity : Int) = report.summary.tally.count severity +
        (if severity = .info then report.dangling.length else 0)) ∧
      (shown.getLast? = some (.message (countsLine fun severity => rowsWith shown severity)) ↔
        report.dangling = []) ∧
      (o.detectDangling = false → report.dangling = []) := by
  intro report shown
  have hreport : AddsUp report := addsUp_of_report source o s.timing
  have hshown : shown = showTables report call.file := shown_of_showsTables h
  have hlast : shown.getLast? = some (.message (countsLine report.summary.tally.count)) := by
    rw [hshown, ← tallyLine_eq]
    exact List.getLast?_concat ..
  have hrows (severity : Severity) : (rowsWith shown severity : Int) =
      report.summary.tally.count severity +
        (if severity = .info then report.dangling.length else 0) := by
    rw [hshown]
    exact rowsWith_showTables hreport call.file severity
  refine ⟨hlast, hrows, ⟨fun hline => ?_, fun hnone => ?_⟩, fun hoff => ?_⟩
  · -- the other counts agree, so the two lines show the same count of information
    rw [hlast] at hline
    have hinfo := info_of_countsLine (Display.message.inj (Option.some.inj hline))
      (by simp [hrows]) (by simp [hrows]) (by simp [hrows])
    have hcount := hreport.tally .info
    have htotal := hrows .info
    simp only [if_neg (by decide : ¬Severity.info = .warning), if_pos] at hcount htotal
    norm_cast at hcount
    rw [hcount] at hinfo htotal
    have hsame := decimal_natCast_inj hinfo
    exact List.length_eq_zero_iff.mp (by omega)
  · have hcounts :
        report.summary.tally.count = fun severity => (rowsWith shown severity : Int) := by
      funext severity
      rw [hrows, hnone]
      simp
    rw [hlast, hcounts]
  · show sectionIf o.detectDangling _ = []
    rw [hoff]
    rfl

/-- A grammar with a hint, in which undefined names are looked for and none is found. -/
theorem countsLine_of_defined_names :
    let source := "a : a 'x' | a 'y' ;".toList
    let arguments := ["analyze", "g.g4", "--unresolved"]
    let s : Surroundings :=
      { folder := [(["g.g4"], .file "a : a 'x' | a 'y' ;".toUTF8)], timing := ⟨.nan, .nan⟩ }
    let call : AnalysisCall :=
      { file := "g.g4", settings := [(.text "detect_unresolved_references", .flag true)] }
    ShowsTables arguments s call source { detectDangling := true } ∧
      (outcomeOf arguments s).shown.getLast? =
        some (.message
          (countsLine fun severity => rowsWith (outcomeOf arguments s).shown severity)) ∧
      rowsWith (outcomeOf arguments s).shown .info = 1 := by
  intro source arguments s call
  have h : ShowsTables arguments s call source { detectDangling := true } :=
    { parsed := eq_ok_of_toOption (by decide +kernel)
      tables := rfl
      readable := eq_ok_of_toOption (by decide +kernel)
      valid := eq_ok_of_toOption (by decide +kernel)
      gradable := by decide +kernel }
  have hnone : (Report.of source { detectDangling := true } s.timing).dangling = [] := by
    decide +kernel
  exact ⟨h, (countsLine_of_analysis h).2.2.1.mpr hnone, by decide +kernel⟩

/-- A row that no count accounts for: the mention of an undefined name is shown as information, and
the line at the end shows no information. -/
theorem row_not_counted :
    let arguments := ["analyze", "g.g4", "--unresolved"]
    let s : Surroundings :=
      { folder := [(["g.g4"], .file "a : a b ;".toUTF8)], timing := ⟨.nan, .nan⟩ }
    rowsWith (outcomeOf arguments s).shown .info = 1 ∧
      (outcomeOf arguments s).shown.getLast? = some (.message (countsLine fun _ => 0)) ∧
      (outcomeOf arguments s).shown.getLast? ≠
        some (.message (countsLine fun severity =>
          rowsWith (outcomeOf arguments s).shown severity)) := by
  decide +kernel

end GrammarAudit.Cli
