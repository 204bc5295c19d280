import GrammarAudit.Cli.Folder
import GrammarAudit.Cli.Invocation
import GrammarAudit.Report.Table

/-!
# Outcomes

What a command line does: the file it writes, what it shows and how it ends.

- `Display`: something that is shown.
- `Ending`: how a command ends, with its status.
- `Outcome`: the outcome of a command.
- `Outcome.settle`: the outcome once its file is written.
-/

namespace GrammarAudit.Cli

/-- Something that is shown: a line of markup with results or with complaints, a table, a report
with its syntax highlighted, or plain text. -/
inductive Display where
  | message (markup : String)
  | complaint (markup : String)
  | table (t : Table)
  | highlighted (text : String)
  | plain (text : String)
deriving DecidableEq, Repr

/-- Why a command ends without having said what is wrong. -/
inductive Crash where
  | notText
  | noValue (message : String)
  | outOfRange
  | cannotWrite (e : AccessError)
deriving DecidableEq, Repr

/-- How a command ends. -/
inductive Ending where
  | success
  | failure
  | misuse (e : UsageError)
  | crash (c : Crash)
deriving DecidableEq, Repr

/-- The status that a command ends with. -/
def Ending.status : Ending → Nat
  | success => 0
  | failure => 1
  | misuse _ => 2
  | crash _ => 1

/-- A file that a command writes. -/
structure Writing where
  path : String
  text : String
deriving DecidableEq, Repr

/-- The outcome of a command: the file that it writes, then what it shows, and how it ends. -/
structure Outcome where
  shown : List Display := []
  file : Option Writing := none
  ending : Ending := .success
deriving DecidableEq, Repr

/-- The outcome after its file is written, and the files then. If the file cannot be written,
nothing is shown. -/
def Outcome.settle (outcome : Outcome) (folder : Folder) : Outcome × Folder :=
  match outcome.file with
  | none => (outcome, folder)
  | some file =>
    match folder.write file.path file.text.toUTF8 with
    | .ok written => (outcome, written)
    | .error e => ({ ending := .crash (.cannotWrite e) }, folder)

end GrammarAudit.Cli
