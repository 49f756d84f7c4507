/-
The source files of an input folder.

A file that cannot be read or scanned is reported and passed over.
-/
import DocPages.Declaration.Scan
import DocPages.Files.FileSystem
import DocPages.Files.Path
import DocPages.Project.Build

namespace DocPages
namespace Sources

open Text

inductive ParseError where
  | unsupported (path : String)
  | broken (fault : Declaration.Fault)
deriving Repr

def ParseError.message : ParseError → String
  | .unsupported path => "unsupported file type: " ++ path
  | .broken fault => fault.message

/-- The declarations of a file, which is known by its extension. -/
def parseFile (path content : String) : Except ParseError (List Declaration) :=
  if Path.extension? path == some "cs" then
    match Declaration.scan content with
    | .ok declarations => .ok declarations
    | .error fault => .error (.broken fault)
  else .error (.unsupported path)

/-- The path from which the files below a folder are named.  The dot for the current
folder is left out of their names, and then nothing but a name may follow it. -/
def base? (folder : String) : Option String :=
  let step (path piece : String) : Option String :=
    let next := if path == "." then piece else Path.join path piece
    if next.isEmpty then none else some next
  let pieces := (Path.pieces folder).map String.ofList
  if Path.isAbsolute folder then pieces.tail.foldlM step "/"
  else pieces.foldlM step "."

/-- The path of a file below a base. -/
def childPath (base : String) (names : List String) : String :=
  let below := "/".intercalate names
  if base == "." then below else Path.join base below

def isSource (names : List String) : Bool :=
  names.getLast?.any fun name => endsWith ".cs".toList name.toList

/-- The order of source files: name by name. -/
def inOrder (a b : List String) : Bool := !b.lex a fun x y => decide (x < y)

section
variable {m : Type → Type} [Monad m] [FileSystem m]

/-- The paths of the source files of a folder, in order. -/
def collect (folder : String) : m (List String) := do
  match base? folder with
  | none => return []
  | some base =>
    let files ← FileSystem.filesBelow base
    return ((files.filter isSource).mergeSort inOrder).map (childPath base)

/-- What parsing adds up to. -/
structure Parsed where
  project : Project
  created : Nat := 0
  log : Log := []

/-- Adds one file to a project. -/
def addSource (package path : String) (parsed : Parsed) (content : Except FileFailure String) :
    Parsed :=
  let skip (reason : String) : Parsed :=
    { parsed with log := parsed.log ++ [.error ("skipping " ++ path ++ ": " ++ reason)] }
  match content with
  | .error e => skip e.message
  | .ok content =>
    match parseFile path content with
    | .error e => skip e.message
    | .ok declarations =>
      let (project, created, log) := parsed.project.addFile package path declarations
      { project
        created := parsed.created + created
        log := parsed.log
          ++ .debug (path ++ ": " ++ toString declarations.length ++ " declarations") :: log }

def addSources (package : String) (parsed : Parsed) : List String → m Parsed
  | [] => return parsed
  | path :: rest => do
    let content ← FileSystem.readFile path
    addSources package (addSource package path parsed content) rest

/-- Adds the source files of a folder to a project. -/
def parseFolder (project : Project) (folder : String) : m Parsed := do
  let files ← collect folder
  let log : Log :=
    if files.isEmpty then [.warning ("no source files found in " ++ folder)] else []
  let parsed ← addSources (Path.packageName folder) { project, log } files
  return { parsed with
    log := parsed.log
      ++ [.info (folder ++ ": " ++ toString files.length ++ " files, "
        ++ toString parsed.created ++ " documented items")] }

end
end Sources
end DocPages
