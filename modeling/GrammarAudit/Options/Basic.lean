import GrammarAudit.Finding.Grade
import GrammarAudit.Text.Quoted

/-!
# Options

Switches and thresholds of an analysis. They are given as settings by name, in one of two
spellings, and later settings of an option override earlier ones.

- `Options`: the values that an analysis runs with.
- `Setting`, `SettingKey`: a value and a key as someone gives them, of any kind.
- `Options.merge`: options with settings applied.
- `OptionError`: the key that is at fault and what is wrong, with its wording.
-/

namespace GrammarAudit

/-- The options of an analysis. -/
structure Options where
  detectUnused : Bool := true
  analyzeComplexity : Bool := true
  detectIssues : Bool := true
  detectAmbiguity : Bool := true
  startRule : String := ""
  high : Number := .int 50
  critical : Number := .int 100
  detectDangling : Bool := false
deriving DecidableEq, Repr, Inhabited

/-- The thresholds for grades. -/
def Options.thresholds (o : Options) : Thresholds :=
  ⟨o.high, o.critical⟩

/-! ## Names -/

/-- The name of an option. -/
inductive OptionName where
  | detectUnused
  | analyzeComplexity
  | detectIssues
  | detectAmbiguity
  | detectDangling
  | startRule
  | high
  | critical
deriving DecidableEq, Repr

namespace OptionName

/-- All options, in the order in which their values are checked. -/
def all : List OptionName := [
  detectUnused, analyzeComplexity, detectIssues, detectAmbiguity, detectDangling, startRule, high,
  critical]

/-- The spelling with underscores, which messages use. -/
def snake : OptionName → String
  | detectUnused => "detect_unused_rules"
  | analyzeComplexity => "analyze_complexity"
  | detectIssues => "detect_performance_issues"
  | detectAmbiguity => "detect_ambiguity"
  | detectDangling => "detect_unresolved_references"
  | startRule => "start_rule"
  | high => "high_complexity_threshold"
  | critical => "critical_complexity_threshold"

/-- The spelling with inner capitals. -/
def camel : OptionName → String
  | detectUnused => "detectUnusedRules"
  | analyzeComplexity => "analyzeComplexity"
  | detectIssues => "detectPerformanceIssues"
  | detectAmbiguity => "detectAmbiguity"
  | detectDangling => "detectUnresolvedReferences"
  | startRule => "startRule"
  | high => "highComplexityThreshold"
  | critical => "criticalComplexityThreshold"

/-- The option of a spelling. -/
def ofText? (s : String) : Option OptionName :=
  all.find? fun name => name.snake = s || name.camel = s

end OptionName

/-! ## Settings -/

/-- The value of a setting: a switch, a text, a number or anything else. -/
inductive Setting where
  | flag (b : Bool)
  | text (s : String)
  | number (n : Number)
  | other
deriving DecidableEq, Repr

/-- The key of a setting: a text, or anything else as messages show it. -/
inductive SettingKey where
  | text (s : String)
  | other (shown : String)
deriving DecidableEq, Repr

/-- A key as messages show it. -/
def SettingKey.display : SettingKey → String
  | text s => Text.quote s
  | other shown => shown

/-- The option that a key names. -/
def SettingKey.option? : SettingKey → Option OptionName
  | text s => OptionName.ofText? s
  | other _ => none

/-! ## Errors -/

/-- What is wrong with a setting or with a file of settings. -/
inductive OptionFault where
  | unknown
  | notFlag
  | notText
  | notNumber
  | negative
  | notMapping
  | notYaml
deriving DecidableEq, Repr

/-- The wording of a fault. -/
def OptionFault.message : OptionFault → String
  | unknown => "unknown option"
  | notFlag => "expected a boolean"
  | notText => "expected a string"
  | notNumber => "expected a number"
  | negative => "must not be negative"
  | notMapping => "expected a mapping of option names to values"
  | notYaml => "not valid YAML"

/-- The wording of an error about an option: the key as it is shown and the text about it. -/
def invalidOption (shownKey text : String) : String :=
  "Invalid option " ++ shownKey ++ ": " ++ text

/-- An error about options: the key at fault and what is wrong. -/
structure OptionError where
  key : SettingKey
  fault : OptionFault
deriving DecidableEq, Repr

/-- The wording of an error. -/
def OptionError.message (e : OptionError) : String :=
  invalidOption e.key.display e.fault.message

/-! ## Applying settings -/

/-- An error about the value of an option. -/
def OptionName.fail {α : Type} (name : OptionName) (fault : OptionFault) : Except OptionError α :=
  .error ⟨.text name.snake, fault⟩

/-- The switch that a setting gives. -/
def OptionName.flag (name : OptionName) : Setting → Except OptionError Bool
  | .flag b => .ok b
  | _ => name.fail .notFlag

/-- The threshold that a setting gives. -/
def OptionName.threshold (name : OptionName) : Setting → Except OptionError Number
  | .number n => if n.lt (.int 0) then name.fail .negative else .ok n
  | _ => name.fail .notNumber

/-- Options with the value of one option replaced. -/
def Options.set (o : Options) (name : OptionName) (value : Setting) :
    Except OptionError Options := do
  match name with
  | .detectUnused => return { o with detectUnused := ← name.flag value }
  | .analyzeComplexity => return { o with analyzeComplexity := ← name.flag value }
  | .detectIssues => return { o with detectIssues := ← name.flag value }
  | .detectAmbiguity => return { o with detectAmbiguity := ← name.flag value }
  | .detectDangling => return { o with detectDangling := ← name.flag value }
  | .high => return { o with high := ← name.threshold value }
  | .critical => return { o with critical := ← name.threshold value }
  | .startRule =>
    match value with
    | .text s => return { o with startRule := s }
    | _ => name.fail .notText

/-- The options that settings name, with their values; the first key that names none is an
error. -/
def resolveSettings (settings : List (SettingKey × Setting)) :
    Except OptionError (List (OptionName × Setting)) :=
  settings.mapM fun (key, value) =>
    match key.option? with
    | some name => .ok (name, value)
    | none => .error ⟨key, .unknown⟩

/-- The last value given for an option. -/
def lastValue? (changes : List (OptionName × Setting)) (name : OptionName) : Option Setting :=
  changes.reverse.lookup name

/-- Options with the last value given for each option. -/
def Options.apply (o : Options) (changes : List (OptionName × Setting)) :
    Except OptionError Options :=
  OptionName.all.foldlM (fun o name =>
    match lastValue? changes name with
    | some value => o.set name value
    | none => .ok o) o

/-- Options with settings applied. All keys are looked at before any value. -/
def Options.merge (o : Options) (settings : List (SettingKey × Setting)) :
    Except OptionError Options := do
  o.apply (← resolveSettings settings)

/-- Options in which a threshold that is a whole number is given as an integer. Two options are
the same if these are equal. -/
def Options.canonical (o : Options) : Options :=
  { o with high := o.high.canonical, critical := o.critical.canonical }

end GrammarAudit
