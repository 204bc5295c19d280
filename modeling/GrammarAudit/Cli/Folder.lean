import GrammarAudit.Text.Encoding
import GrammarAudit.Text.Quoted

/-!
# Folders

The files and folders that can be reached, as far as a command can tell them apart. Paths use slashes;
empty parts and single dots in them do not count.

- `Folder`: files and folders by path.
- `Folder.read`, `Folder.write`: access to a file.
- `AccessError`: why access fails, with its wording.
-/

namespace GrammarAudit.Cli

/-- What stands at a path. -/
inductive Entry where
  | file (bytes : ByteArray)
  | folder

/-- Whether a folder stands at a path. -/
def Entry.isFolder : Entry → Bool
  | file _ => false
  | folder => true

/-- Files and folders, by the parts of their paths. -/
abbrev Folder := List (List String × Entry)

/-- Why a file cannot be read or written. -/
inductive AccessError where
  | missing
  | isFolder
  | notFolder
deriving DecidableEq, Repr

/-! ## Paths -/

/-- Whether a path starts at the root. -/
def isAbsolute (path : String) : Bool :=
  path.toList.head? = some '/'

/-- The parts of a path that count. The root is a part of its own. -/
def pathParts (path : String) : List String :=
  let parts := path.toList.foldr (fun c parts =>
    if c = '/' then [] :: parts
    else match parts with
      | part :: rest => (c :: part) :: rest
      | [] => [[c]]) [[]]
  let named := (parts.filter fun part => part ≠ [] && part ≠ ['.']).map String.ofList
  if isAbsolute path then "/" :: named else named

/-- A path without the parts that do not count. -/
def plainPath (path : String) : String :=
  match pathParts path with
  | [] => "."
  | "/" :: parts => "/" ++ "/".intercalate parts
  | parts => "/".intercalate parts

/-- The wording of an error about a path. -/
def AccessError.message (path : String) : AccessError → String
  | missing => "[Errno 2] No such file or directory: " ++ Text.quote (plainPath path)
  | isFolder => "[Errno 21] Is a directory: " ++ Text.quote (plainPath path)
  | notFolder => "[Errno 20] Not a directory: " ++ Text.quote (plainPath path)

/-! ## Access -/

namespace Folder

/-- Whether a file stands at some part of a path before its last one. -/
def crossesFile (f : Folder) (parts : List String) : Bool :=
  f.any fun (known, entry) =>
    known.isPrefixOf parts && known ≠ parts && !entry.isFolder

/-- What stands at a path. The current folder, its parent and the root are always there. -/
def entry (f : Folder) (path : String) : Except AccessError Entry :=
  let parts := pathParts path
  if parts ∈ [[], [".."], ["/"]] then .ok .folder
  else
    match f.lookup parts with
    | some found => .ok found
    | none => .error (if f.crossesFile parts then .notFolder else .missing)

/-- The bytes of a file. -/
def read (f : Folder) (path : String) : Except AccessError ByteArray :=
  match f.entry path with
  | .ok (.file bytes) => .ok bytes
  | .ok .folder => .error .isFolder
  | .error e => .error e

/-- Whether a new file can stand at a path: the folder that it is in has to be there. -/
def hasParent (f : Folder) (parts : List String) : Bool :=
  parts.dropLast = [] || (f.lookup parts.dropLast).any Entry.isFolder

/-- The folder with a file written. -/
def write (f : Folder) (path : String) (bytes : ByteArray) : Except AccessError Folder :=
  let parts := pathParts path
  match f.entry path with
  | .ok .folder => .error .isFolder
  | .ok (.file _) => .ok ((parts, .file bytes) :: f)
  | .error .missing =>
    if f.hasParent parts then .ok ((parts, .file bytes) :: f)
    else .error .missing
  | .error e => .error e

end Folder

end GrammarAudit.Cli
