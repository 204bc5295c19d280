import GrammarAudit.Options.Basic
import GrammarAudit.Yaml.Value

/-!
# Settings files

A settings file is a YAML mapping of option names to values. An empty file gives the defaults.

- `Options.ofFile`: the options that the text of a file gives.
- `SettingsFault`: why it gives none, with its wording.
-/

namespace GrammarAudit

/-- Why a file gives no options: something is wrong with an option or with the file as a whole, or
the spelling of a value promises a number or a date that does not exist. -/
inductive SettingsFault where
  | option (e : OptionError)
  | noValue (message : String)
deriving DecidableEq, Repr

/-- The wording of a fault. -/
def SettingsFault.message : SettingsFault → String
  | option e => e.message
  | noValue message => message

/-- The setting that a value in a file gives. -/
def Setting.ofValue : Yaml.Value → Setting
  | .scalar (.bool b) => .flag b
  | .scalar (.int n) => .number (.int n)
  | .scalar (.real x) => .number (.real x)
  | .scalar (.text s) => .text s
  | _ => .other

/-- The key that a scalar in a file gives. -/
def SettingKey.ofScalar : Yaml.Scalar → SettingKey
  | .text s => .text s
  | s => .other s.display

/-- The options that the value of a file gives. Faults of the file as a whole are named for its
path. -/
def Options.ofValue (path : String) : Yaml.Value → Except OptionError Options
  | .scalar .null => .ok {}
  | .mapping entries =>
    ({} : Options).merge (entries.map fun (k, v) => (.ofScalar k, .ofValue v))
  | _ => .error ⟨.text path, .notMapping⟩

/-- The options that the text of a file gives. -/
def Options.ofFile (path : String) (text : List Char) : Except SettingsFault Options :=
  match Yaml.Value.ofText text with
  | .ok value => (Options.ofValue path value).mapError .option
  | .error .malformed => .error (.option ⟨.text path, .notYaml⟩)
  | .error (.noValue message) => .error (.noValue message)

end GrammarAudit
