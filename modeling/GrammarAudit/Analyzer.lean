import GrammarAudit.Report.Run
import GrammarAudit.Store

/-!
# Analyzers

An analyzer keeps the reports that it has made, under the hash of the source and the options. A
request for a report that is still kept gets that one.

- `Run`: a report with its number among the reports of an analyzer.
- `Analyzer`: the kept runs and how many there have been.
- `Analyzer.analyze`: the run for a source under options.
- `Analyzer.request`: the same for settings that are not known to be valid.
-/

namespace GrammarAudit

/-- A report and how many the analyzer made before it. -/
structure Run where
  number : Nat
  report : Report
deriving DecidableEq, Repr

/-- What a report is kept under: the hash of its source and its options, in canonical form. -/
abbrev RunKey := String × Options

/-- The key of a source and options. -/
def runKey (source : List Char) (o : Options) : RunKey :=
  (fingerprint source, o.canonical)

/-- The runs that are kept, by key, and the number of runs so far. -/
structure Analyzer (τ : Type) where
  store : Store RunKey τ Run
  runs : Nat := 0

/-- Why a request gets no report. -/
inductive AnalysisError where
  | notText (typeName : String)
  | option (e : OptionError)
  | outOfRange
deriving DecidableEq, Repr

/-- The wording of an error, where it has one. -/
def AnalysisError.message? : AnalysisError → Option String
  | notText typeName => some ("source must be a str, got " ++ typeName)
  | option e => some e.message
  | outOfRange => none

namespace Analyzer

variable {τ : Type} [Sub τ] [LT τ] [DecidableLT τ]

/-- The run for a source under options: the kept one if it is still live, otherwise a new one. -/
def analyze (a : Analyzer τ) (now : τ) (timing : Timing) (source : List Char) (o : Options) :
    Except AnalysisError Run × Analyzer τ :=
  match a.store.get now (runKey source o) with
  | (some run, store) => (.ok run, { a with store := store })
  | (none, store) =>
    if cannotGrade source o then (.error .outOfRange, { a with store := store })
    else
      let run := ⟨a.runs, Report.of source o timing⟩
      (.ok run, { store := store.put now (runKey source o) run, runs := a.runs + 1 })

/-- The run for a source that may be no text, under options with settings applied. The source is
looked at first, and a request that fails changes nothing. -/
def request (a : Analyzer τ) (now : τ) (timing : Timing) (source : Except String (List Char))
    (o : Options) (settings : List (SettingKey × Setting)) :
    Except AnalysisError Run × Analyzer τ :=
  match source with
  | .error typeName => (.error (.notText typeName), a)
  | .ok text =>
    match o.merge settings with
    | .error e => (.error (.option e), a)
    | .ok merged => a.analyze now timing text merged

/-- The analyzer without kept runs. -/
def clear (a : Analyzer τ) : Analyzer τ :=
  { a with store := a.store.clear }

/-- Whether a run for the source and options is kept, however old. -/
def keeps (a : Analyzer τ) (source : List Char) (o : Options) : Bool :=
  a.store.contains (runKey source o)

end Analyzer

end GrammarAudit
