import GrammarAudit.Cli.Command
import Std.Time.DateTime.Timestamp

/-!
# Program

The outer layer of the program: it looks at the files that the arguments name, carries out the
outcome and ends with its status.
-/

namespace GrammarAudit.Cli

/-- Adds what stands at a path to a folder. -/
def lookAt (folder : Folder) (path : String) : IO Folder := do
  try
    let bytes ← IO.FS.readBinFile path
    return (pathParts path, .file bytes) :: folder
  catch
    | .inappropriateType .. => return (pathParts path, .folder) :: folder
    | _ => return folder

/-- The time now, and no duration yet. -/
def startTime : IO Timing := do
  let now ← Std.Time.Timestamp.now
  return ⟨.ofDecimal false now.toMillisecondsSinceUnixEpoch.val.toNat (-3), .ofInt 0⟩

/-- Shows something. -/
def Display.print (d : Display) : IO Unit := do
  match d with
  | .message markup => IO.println (Text.visible markup)
  | .complaint markup => IO.eprintln (Text.visible markup)
  | .table t => t.lines.forM IO.println
  | .highlighted text => IO.println text
  | .plain text => IO.print text

/-- Says how a command ended, where that is not shown otherwise. -/
def Ending.explain (ending : Ending) : IO Unit := do
  match ending with
  | .misuse e => IO.eprintln ("Error: " ++ e.message?.getD "Missing command.")
  | .crash (.noValue message) => IO.eprintln message
  | .crash .notText => IO.eprintln "The file is no UTF-8 text."
  | .crash .outOfRange => IO.eprintln "A threshold is out of range."
  | .crash (.cannotWrite _) => IO.eprintln "The file cannot be written."
  | _ => return ()

end GrammarAudit.Cli

open GrammarAudit.Cli in
/-- Runs the program. -/
def main (arguments : List String) : IO UInt32 := do
  let reads := match Invocation.ofArguments arguments with
    | .ok invocation => invocation.reads
    | .error _ => []
  let folder ← reads.foldlM lookAt []
  let isTerminal ← (← IO.getStdout).isTty
  let outcome := outcomeOf arguments { folder, isTerminal, timing := ← startTime }
  let mut ending := outcome.ending
  try
    if let some file := outcome.file then IO.FS.writeFile file.path file.text
    outcome.shown.forM Display.print
  catch _ => ending := .crash (.cannotWrite .missing)
  ending.explain
  return ending.status.toUInt32
