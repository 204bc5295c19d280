import GrammarAudit.Cli.Command
import GrammarAudit.Proofs.Report.ErrorStatus
import GrammarAudit.Proofs.Report.Reading

/-!
# How an analysis ends

The analysis of a readable file under valid options ends with the status of its report: it fails
exactly if the report has errors, in whatever form the report is given. The one exception is a high
threshold so large that its half is no floating-point number. Where it would be looked at, there is
no report and the command crashes, although no rule is critical for it.

- `endingOf`: how a command ends.
- `Analyzes`: arguments that ask for an analysis which reads and writes what it has to.
- `ending_of_analysis`: the ending of an analysis.
- `status_of_analysis`: errors and status, traced to the critical rules.
-/

namespace GrammarAudit.Cli

/-- How a command ends once the file that it writes is written. -/
def endingOf (arguments : List String) (s : Surroundings) : Ending :=
  ((outcomeOf arguments s).settle s.folder).1.ending

/-- The arguments ask for an analysis: the source of the file and the options are found, and what
there is to write can be written. -/
structure Analyzes (arguments : List String) (s : Surroundings) (source : List Char)
    (o : Options) : Prop where
  found : ∃ call, Invocation.ofArguments arguments = .ok (.analyze call) ∧
    s.readText call.file "File not found" = .ok source ∧ call.options s = .ok o
  written : ∀ e, endingOf arguments s ≠ .crash (.cannotWrite e)

/-- Writing a file changes how a command ends only if it fails. -/
theorem ending_settle (outcome : Outcome) (folder : Folder) :
    (outcome.settle folder).1.ending = outcome.ending ∨
      ∃ e, (outcome.settle folder).1.ending = .crash (.cannotWrite e) := by
  unfold Outcome.settle
  cases outcome.file with
  | none => exact .inl rfl
  | some file =>
    dsimp only
    cases folder.write file.path file.text.toUTF8 with
    | ok written => exact .inl rfl
    | error e => exact .inr ⟨e, rfl⟩

/-- The place of a text does not bear on how the command ends. -/
theorem ending_emit (s : Surroundings) (text : String) (output : Option String) (ending : Ending) :
    (emit s text output ending).ending = ending := by
  unfold emit
  split <;> rfl

/-- An analysis under options ends with the status of its report, whatever form it is given in. -/
theorem ending_outcome {call : AnalysisCall} {s : Surroundings} {source : List Char} {o : Options}
    (hsource : s.readText call.file "File not found" = .ok source)
    (hoptions : call.options s = .ok o) :
    ((Invocation.analyze call).outcome s).ending =
      if cannotGrade source o then .crash .outOfRange
      else if (Report.of source o s.timing).hasErrors then .failure else .success := by
  have houtcome : call.outcome s =
      if cannotGrade source o then .error (crash .outOfRange)
      else
        let report := Report.of source o s.timing
        let ending := if report.hasErrors then .failure else .success
        if call.format = .table then
          .ok { shown := showTables report call.file, ending := ending }
        else .ok (emit s (reportText report call.format) call.output ending) := by
    unfold AnalysisCall.outcome
    rw [hsource, hoptions]
    rfl
  unfold Invocation.outcome
  dsimp only
  rw [houtcome]
  cases cannotGrade source o with
  | true => rfl
  | false =>
    -- tables are shown, and other forms are shown or written
    by_cases htable : call.format = .table
    · simp only [if_pos htable, Bool.false_eq_true, if_false]
    · simp only [if_neg htable, Bool.false_eq_true, if_false, ending_emit]

/-- The ending of an analysis that can write what it has to. -/
theorem ending_of_analysis {arguments : List String} {s : Surroundings} {source : List Char}
    {o : Options} (h : Analyzes arguments s source o) :
    endingOf arguments s =
      if cannotGrade source o then .crash .outOfRange
      else if (Report.of source o s.timing).hasErrors then .failure else .success := by
  obtain ⟨call, hcall, hsource, hoptions⟩ := h.found
  have houtcome : outcomeOf arguments s = (Invocation.analyze call).outcome s := by
    unfold outcomeOf
    rw [hcall]
  rcases ending_settle (outcomeOf arguments s) s.folder with hkept | ⟨e, hfailed⟩
  · show ((outcomeOf arguments s).settle s.folder).1.ending = _
    rw [hkept, houtcome, ending_outcome hsource hoptions]
  · exact absurd hfailed (h.written e)

/-- **An analysis fails exactly if a rule is critical.** The errors of a report are the critical
rules of the grammar, and the command ends with the status 1 if there are any and with 0 otherwise.
Only where a rule cannot be graded does it crash, with the status 1 and without a report. -/
theorem status_of_analysis (source : List Char) (o : Options) :
    (∀ timing, CountsCriticalRules source o (Report.of source o timing)) ∧
      ∀ arguments s, Analyzes arguments s source o →
        ((endingOf arguments s).status =
            if cannotGrade source o || (Report.of source o s.timing).hasErrors then 1 else 0) ∧
          (endingOf arguments s = .crash .outOfRange ↔ cannotGrade source o = true) := by
  refine ⟨countsCriticalRules_of_report source o, fun arguments s h => ?_⟩
  rw [ending_of_analysis h]
  cases cannotGrade source o with
  | true => exact ⟨rfl, iff_of_true rfl rfl⟩
  | false =>
    -- a report ends with failure or success, and neither is a crash
    cases (Report.of source o s.timing).hasErrors with
    | true => exact ⟨rfl, iff_of_false Ending.noConfusion Bool.false_ne_true⟩
    | false => exact ⟨rfl, iff_of_false Ending.noConfusion Bool.false_ne_true⟩

/-- A critical threshold of zero, given on the command line: every rule is an error. -/
theorem status_of_zero_threshold :
    let source := "a : a 'x' ;".toList
    let o : Options := { critical := .real (.finite false 0) }
    let arguments := ["analyze", "g.g4", "--critical-threshold", "0"]
    let s : Surroundings :=
      { folder := [(["g.g4"], .file "a : a 'x' ;".toUTF8)], timing := ⟨.nan, .nan⟩ }
    Analyzes arguments s source o ∧ (endingOf arguments s).status = 1 ∧
      ∃ rule ∈ attachedRules source, isCritical source o rule = true := by
  intro source o arguments s
  let call : AnalysisCall :=
    { file := "g.g4"
      settings := [(.text "critical_complexity_threshold", .number o.critical)] }
  have hcall : Invocation.ofArguments arguments = .ok (.analyze call) :=
    eq_ok_of_toOption (by decide +kernel)
  have hsource : s.readText call.file "File not found" = .ok source :=
    eq_ok_of_toOption (by decide +kernel)
  have hoptions : call.options s = .ok o := eq_ok_of_toOption (by decide +kernel)
  have hending : endingOf arguments s = .failure := by decide +kernel
  have hrun : Analyzes arguments s source o :=
    ⟨⟨call, hcall, hsource, hoptions⟩, fun e h => Ending.noConfusion (hending.symm.trans h)⟩
  obtain ⟨hreport, hstatus⟩ := status_of_analysis source o
  have herrors : (Report.of source o s.timing).hasErrors = true := by decide +kernel
  have hfails := (hstatus arguments s hrun).1
  rw [herrors, Bool.or_true, if_pos rfl] at hfails
  exact ⟨hrun, hfails, ((hreport s.timing).hasErrors.mp herrors).2⟩

/-- A high threshold of a one with four hundred zeros is a valid option and no rule is critical
under it, and yet every command that finds it crashes with the status 1. -/
theorem crash_of_large_threshold :
    let source := "a : a 'x' ;".toList
    let large : Number := .int (Nat.pow 10 400)
    ({} : Options).merge [(.text "highComplexityThreshold", .number large)] = .ok { high := large } ∧
      (∀ rule ∈ attachedRules source, isCritical source { high := large } rule = false) ∧
      ∀ (call : AnalysisCall) (s : Surroundings),
        s.readText call.file "File not found" = .ok source →
        call.options s = .ok { high := large } →
          (((Invocation.analyze call).outcome s).ending = .crash .outOfRange ∧
            ((Invocation.analyze call).outcome s).ending.status = 1) := by
  intro source large
  have hgrade : cannotGrade source { high := large } = true := by decide +kernel
  refine ⟨eq_ok_of_toOption (by decide +kernel), by decide +kernel, fun call s hsource hoptions => ?_⟩
  have hending := ending_outcome hsource hoptions
  rw [hgrade, if_pos rfl] at hending
  exact ⟨hending, congrArg Ending.status hending⟩

end GrammarAudit.Cli
