import GrammarAudit.Cli.Outcome
import GrammarAudit.Json.Writer
import GrammarAudit.Options.File
import GrammarAudit.Report.Document
import GrammarAudit.Report.Run
import GrammarAudit.Yaml.Writer

/-!
# Commands

What each command does in its surroundings.

- `Surroundings`: the files, the host and the time that a command finds.
- `AnalysisCall.outcome`, `listRules`: the two commands that read a grammar.
- `Invocation.outcome`, `outcomeOf`: the outcome of an invocation and of arguments.
-/

namespace GrammarAudit.Cli

open Text

/-- What a command finds: the files, whether a terminal shows the results, what there is to say
about the host, and the time. -/
structure Surroundings where
  folder : Folder
  isTerminal : Bool := false
  host : List (String × String) := []
  timing : Timing

/-! ## Program -/

/-- The name of the program. -/
def programName : String := "g4lens"

/-- The version of the program. -/
def programVersion : String := "0.1.0"

/-- The line about the version. -/
def versionLine : String :=
  "cli, version " ++ programVersion ++ "\n"

/-- The table about the program and its host. -/
def aboutTable (host : List (String × String)) : Table :=
  { title := none
    columns := ["", ""]
    rows := [styled "bold" programName, "v" ++ programVersion] ::
      host.map fun (name, value) => [name, value] }

/-! ## Complaints -/

/-- The outcome of a command that complains. -/
def complain (heading text : String) : Outcome :=
  { shown := [.complaint (styled "red" heading ++ " " ++ text)], ending := .failure }

/-- The outcome of a command that crashes. -/
def crash (c : Crash) : Outcome :=
  { ending := .crash c }

/-- The text of a file, or the outcome of a command that needs it. `absent` is what to say when
there is no file. -/
def Surroundings.readText (s : Surroundings) (path absent : String) :
    Except Outcome (List Char) :=
  match s.folder.read path with
  | .error .missing => .error (complain "Error:" (absent ++ ": " ++ escape path))
  | .error e =>
    .error (complain "Error:" ("Cannot read " ++ escape path ++ ": " ++ escape (e.message path)))
  | .ok bytes =>
    match ofBytes? bytes with
    | some text => .ok text
    | none => .error (crash .notText)

/-- The outcome of a command whose options are at fault. -/
def complainOptions (e : OptionError) : Outcome :=
  complain "Invalid configuration:" (escape e.message)

/-- The options that a settings file gives. -/
def Surroundings.readOptions (s : Surroundings) (path : String) : Except Outcome Options := do
  let text ← s.readText path "Config file not found"
  match Options.ofFile path text with
  | .ok o => .ok o
  | .error (.option e) => .error (complainOptions e)
  | .error (.noValue message) => .error (crash (.noValue message))

/-- The options of an analysis: those of the settings file, if one is named, with the settings from
the command line applied. -/
def AnalysisCall.options (call : AnalysisCall) (s : Surroundings) : Except Outcome Options := do
  let fromFile ←
    match call.config with
    | none => .ok {}
    | some path => if path = "" then .ok {} else s.readOptions path
  (fromFile.merge call.settings).mapError complainOptions

/-! ## Reports -/

/-- A report as tables and lines. -/
def showTables (report : Report) (file : String) : List Display :=
  let findings :=
    if report.findings = [] then
      .message (styled "green" "OK" ++ " " ++ escape file ++ ": no issues found")
    else .table report.findingsTable
  let figures := if report.complexity = [] then [] else [.table report.complexityTable]
  .table (report.overview file) :: findings :: figures ++ [.message report.tallyLine]

/-- A report in a form with a text of its own. -/
def reportText (report : Report) (format : Format) : String :=
  let value := report.toDocument.toJson
  if format = .yaml then Yaml.write value else value.write (some 2)

/-- The outcome of showing or writing the text of a report. -/
def emit (s : Surroundings) (text : String) (output : Option String) (ending : Ending) : Outcome :=
  match output.filter (· ≠ "") with
  | some path =>
    { shown := [.message (styled "green" "Report written to" ++ " " ++ escape path)]
      file := some ⟨path, text⟩
      ending := ending }
  | none =>
    { shown := [if s.isTerminal then .highlighted text else .plain (text ++ "\n")]
      ending := ending }

/-- The outcome of an analysis. It fails if the report has errors. -/
def AnalysisCall.outcome (call : AnalysisCall) (s : Surroundings) : Except Outcome Outcome := do
  let source ← s.readText call.file "File not found"
  let o ← call.options s
  if cannotGrade source o then .error (crash .outOfRange)
  else
    let report := Report.of source o s.timing
    let ending := if report.hasErrors then .failure else .success
    if call.format = .table then return { shown := showTables report call.file, ending := ending }
    else return emit s (reportText report call.format) call.output ending

/-- The outcome of listing the rules of a file. -/
def listRules (s : Surroundings) (file : String) : Except Outcome Outcome := do
  let source ← s.readText file "File not found"
  let rules := attachedRules source
  if rules = [] then
    return { shown := [.message (styled "yellow" "No rules found" ++ " in " ++ escape file)] }
  else
    return { shown := [.table (rulesTable rules file),
      .message ("\n" ++ styled "bold" (decimal rules.length) ++ " rule(s)")] }

/-! ## Commands -/

/-- The outcome of an invocation. -/
def Invocation.outcome (i : Invocation) (s : Surroundings) : Outcome :=
  let result : Except Outcome Outcome := match i with
    | version => .ok { shown := [.plain versionLine] }
    | about => .ok { shown := [.table (aboutTable s.host)] }
    | rules file => listRules s file
    | analyze call => call.outcome s
  match result with
  | .ok outcome => outcome
  | .error outcome => outcome

/-- The outcome of arguments. -/
def outcomeOf (arguments : List String) (s : Surroundings) : Outcome :=
  match Invocation.ofArguments arguments with
  | .ok invocation => invocation.outcome s
  | .error e => { ending := .misuse e }

/-- The files that an invocation reads. -/
def Invocation.reads : Invocation → List String
  | version | about => []
  | rules file => [file]
  | analyze call => call.file :: (call.config.filter (· ≠ "")).toList

end GrammarAudit.Cli
