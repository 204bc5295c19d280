import GrammarAudit.Cli.Arguments
import GrammarAudit.Number.Reading
import GrammarAudit.Options.Basic
import GrammarAudit.Text.LowerCase

/-!
# Invocations

What a command line asks for. Options of the program come before the name of a command; the
options of a command may stand before or after the name of its file.

- `Invocation`: the version, a table about the program, the rules of a file, or its analysis.
- `Invocation.ofArguments`: what arguments ask for.
-/

namespace GrammarAudit.Cli

/-- The forms of a report. -/
inductive Format where
  | table
  | json
  | yaml
deriving DecidableEq, Repr

/-- The name of a form. -/
def Format.label : Format → String
  | table => "table"
  | json => "json"
  | yaml => "yaml"

/-- All forms. -/
def Format.all : List Format := [.table, .json, .yaml]

/-- What an analysis is asked for: the file, settings from a file and from options, and the form of
the report and where to write it. -/
structure AnalysisCall where
  file : String
  config : Option String := none
  settings : List (SettingKey × Setting) := []
  format : Format := .table
  output : Option String := none
deriving DecidableEq, Repr

/-- What a command line asks for. -/
inductive Invocation where
  | version
  | about
  | rules (file : String)
  | analyze (call : AnalysisCall)
deriving DecidableEq, Repr

/-! ## Options -/

/-- The options of the program. -/
inductive ProgramOption where
  | verbose
  | version
deriving DecidableEq

/-- The spellings of the options of the program. -/
def programOptions : List (OptionSpec ProgramOption) := [
  { option := .version, long := "--version" },
  { option := .verbose, long := "--verbose", letter := some 'v' }]

/-- The options of an analysis. -/
inductive AnalysisOption where
  | startRule
  | config
  | noUnused
  | noComplexity
  | noPerformance
  | noAmbiguity
  | unresolved
  | high
  | critical
  | format
  | output
deriving DecidableEq

/-- The long name of an option of an analysis. -/
def AnalysisOption.long : AnalysisOption → String
  | startRule => "--start-rule"
  | config => "--config"
  | noUnused => "--no-unused"
  | noComplexity => "--no-complexity"
  | noPerformance => "--no-performance"
  | noAmbiguity => "--no-ambiguity"
  | unresolved => "--unresolved"
  | high => "--high-threshold"
  | critical => "--critical-threshold"
  | format => "--format"
  | output => "--output"

/-- The spellings of the options of an analysis. -/
def analysisOptions : List (OptionSpec AnalysisOption) :=
  let switches : List AnalysisOption :=
    [.noUnused, .noComplexity, .noPerformance, .noAmbiguity, .unresolved]
  let valued : List AnalysisOption := [.startRule, .config, .high, .critical, .format]
  switches.map (fun o => { option := o, long := o.long }) ++
    valued.map (fun o => { option := o, long := o.long, takesValue := true }) ++
    [{ option := .output, long := "--output", letter := some 'o', takesValue := true }]

/-! ## Values -/

/-- The form that a value names, in letters of any case. -/
def Format.ofText? (s : String) : Option Format :=
  let word := String.ofList (Text.lower (s.toList.map fun c => if c = 'ſ' then 's' else c))
  all.find? fun format => format.label = word

/-- The call with the value of an option. -/
def AnalysisCall.take (call : AnalysisCall) (given : Given AnalysisOption) :
    Except UsageError AnalysisCall :=
  let (option, value) := given
  let text := value.getD ""
  let setting (name : OptionName) (value : Setting) : AnalysisCall :=
    { call with settings := call.settings ++ [(.text name.snake, value)] }
  let threshold (name : OptionName) : Except UsageError AnalysisCall :=
    match readDouble? text with
    | some x => .ok (setting name (.number (.real x)))
    | none => .error (.notNumber option.long text)
  match option with
  | .startRule => .ok (setting .startRule (.text text))
  | .config => .ok { call with config := some text }
  | .noUnused => .ok (setting .detectUnused (.flag false))
  | .noComplexity => .ok (setting .analyzeComplexity (.flag false))
  | .noPerformance => .ok (setting .detectIssues (.flag false))
  | .noAmbiguity => .ok (setting .detectAmbiguity (.flag false))
  | .unresolved => .ok (setting .detectDangling (.flag true))
  | .high => threshold .high
  | .critical => threshold .critical
  | .format =>
    match Format.ofText? text with
    | some format => .ok { call with format := format }
    | none => .error (.notChoice option.long text (Format.all.map Format.label))
  | .output => .ok { call with output := some text }

/-! ## Commands -/

/-- The one file among the arguments of a command. -/
def oneFile : List String → Except UsageError String
  | [] => .error (.argumentMissing "FILE")
  | [file] => .ok file
  | _ :: more => .error (.argumentsUnwanted more)

/-- What the arguments of an analysis ask for. Values of options are looked at before the file. -/
def parseAnalysis (arguments : List String) : Except UsageError Invocation := do
  let parsed ← parseArguments analysisOptions true arguments
  let call ← parsed.settled.foldlM AnalysisCall.take { file := "" }
  return .analyze { call with file := ← oneFile parsed.others }

/-- What the arguments of a command without options ask for. -/
def parsePlain (arguments : List String) : Except UsageError (List String) := do
  let parsed ← parseArguments ([] : List (OptionSpec Empty)) true arguments
  return parsed.others

/-- What a name that is no command asks for: nothing, unless it reads as an option. -/
def parseUnknown (name : String) (arguments : List String) : Except UsageError Invocation := do
  if givesOptions name then
    let parsed ← parseArguments programOptions false (name :: arguments)
    if parsed.has .version then return .version
  .error (.unknownCommand name)

/-- What the name of a command and its arguments ask for. -/
def parseCommand (name : String) (arguments : List String) : Except UsageError Invocation := do
  match name with
  | "analyze" => parseAnalysis arguments
  | "rules" => return .rules (← oneFile (← parsePlain arguments))
  | "version" =>
    match ← parsePlain arguments with
    | [] => return .about
    | more => .error (.argumentsUnwanted more)
  | _ => parseUnknown name arguments

/-- What arguments ask for. -/
def Invocation.ofArguments (arguments : List String) : Except UsageError Invocation := do
  if arguments = [] then .error .nothing
  else
    let parsed ← parseArguments programOptions false arguments
    if parsed.has .version then return .version
    else
      match parsed.others with
      | name :: rest => parseCommand name rest
      | [] => .error .noCommand

end GrammarAudit.Cli
