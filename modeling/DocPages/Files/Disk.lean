/-
A disk that is a value.

Every file and folder is known by the names that lead to it from the root.  A path is
followed name by name, and each name has to be found in a folder.
-/
import DocPages.Files.FileSystem
import DocPages.Files.Path

namespace DocPages

inductive FileContent where
  | text (content : String)
  /-- Bytes that are no UTF-8 text. -/
  | binary (bytes : List Nat)
deriving Repr, DecidableEq

inductive FileNode where
  | folder
  | file (content : FileContent)
deriving Repr, DecidableEq

/-- The names that lead from the root to a file or folder. -/
abbrev Location := List String

structure Disk where
  nodes : List (Location × FileNode) := []
  /-- Where relative paths start. -/
  workingFolder : Location := []
deriving Repr, DecidableEq

namespace Disk

open Text

/-- What stands at a location.  The root and the working folder are always there. -/
def node? (d : Disk) (l : Location) : Option FileNode :=
  if l.isPrefixOf d.workingFolder then some .folder else d.nodes.lookup l

def put (d : Disk) (l : Location) (n : FileNode) : Disk :=
  { d with nodes := (l, n) :: d.nodes.filter (·.1 != l) }

/-- Where the following of a path starts. -/
def start (d : Disk) (path : String) : Location :=
  if Path.isAbsolute path then [] else d.workingFolder

/-- Goes on from a location by one piece of a path. -/
def follow (d : Disk) (l : Location) (piece : List Char) : Except FileFailure Location :=
  match d.node? l with
  | none => .error .missing
  | some (.file _) => .error .notFolder
  | some .folder =>
    if piece = [] ∨ piece = ['.'] then .ok l
    else if piece = ['.', '.'] then .ok l.dropLast
    else if 255 < byteLength piece then .error .nameTooLong
    else .ok (l ++ [String.ofList piece])

def followAll (d : Disk) (l : Location) : List (List Char) → Except FileFailure Location
  | [] => .ok l
  | piece :: rest => do
    let l ← d.follow l piece
    d.followAll l rest

/-- A path that can name something. -/
def checked (path : String) : Except FileFailure Unit :=
  if path.isEmpty then .error .missing
  else if path.toList.contains '\x00' then .error .badName
  else .ok ()

/-- The location that a path leads to, and what stands there. -/
def find (d : Disk) (path : String) : Except FileFailure (Location × FileNode) := do
  checked path
  let l ← d.followAll (d.start path) (Path.pieces path)
  match d.node? l with
  | some n => .ok (l, n)
  | none => .error .missing

def isFile (d : Disk) (path : String) : Bool :=
  match d.find path with
  | .ok (_, .file _) => true
  | _ => false

def isFolder (d : Disk) (path : String) : Bool :=
  match d.find path with
  | .ok (_, .folder) => true
  | _ => false

def readFile (d : Disk) (path : String) : Except FileFailure String := do
  match ← d.find path with
  | (_, .folder) => .error .isFolder
  | (_, .file (.text content)) => .ok content
  | (_, .file (.binary _)) => .error .notText

/-- The files below a folder. -/
def filesBelow (d : Disk) (path : String) : List (List String) :=
  match d.find path with
  | .ok (l, .folder) => d.nodes.filterMap fun (at_, n) =>
    match n with
    | .file _ => if l.isPrefixOf at_ then some (at_.drop l.length) else none
    | .folder => none
  | _ => []

/-- Makes one folder, by the pieces of its path. -/
def makeFolder (d : Disk) (l : Location) (pieces : List (List Char)) : Except FileFailure Disk := do
  -- Slashes at the end do not matter here.
  let target ← d.followAll l (pieces.reverse.dropWhile (·.isEmpty)).reverse
  match d.node? target with
  | some _ => .error .exists_
  | none => .ok (d.put target .folder)

/-- Makes one folder.  A folder that is already there is as good as a new one. -/
def ensureFolder (d : Disk) (l : Location) (pieces : List (List Char)) : Except FileFailure Disk :=
  match d.makeFolder l pieces with
  | .ok d => .ok d
  | .error e =>
    match d.followAll l pieces with
    | .ok at_ => if d.node? at_ = some .folder then .ok d else .error e
    | .error _ => .error e

/-- Makes a folder, and before it those above it if they are missing.  What was made
before a failure stays. -/
def ensureFolders (d : Disk) (l : Location) :
    List (List (List Char)) → Except FileFailure Unit × Disk
  | [] => (.ok (), d)
  | target :: above =>
    match d.ensureFolder l target with
    | .ok d => (.ok (), d)
    | .error e =>
      if e = .missing then
        match d.ensureFolders l above with
        | (.error e, d) => (.error e, d)
        | (.ok _, d) =>
          match d.ensureFolder l target with
          | .ok d => (.ok (), d)
          | .error e => (.error e, d)
      else (.error e, d)

/-- The folders that lead to a path, the nearest first. -/
def above (path : String) : List (List (List Char)) :=
  let names := (Path.components path).filterMap fun
    | .root => none
    | .current => some ['.']
    | .parent => some ['.', '.']
    | .normal name => some name.toList
  (List.range' 1 (names.length - 1)).reverse.map names.take

def makeFolders (d : Disk) (path : String) : Except FileFailure Unit × Disk :=
  if path.isEmpty then (.ok (), d)
  else
    match checked path with
    | .error e => (.error e, d)
    | .ok _ => d.ensureFolders (d.start path) (Path.pieces path :: above path)

/-- Puts a file in place of one that is there, or makes a new one. -/
def write (d : Disk) (path : String) (content : FileContent) : Except FileFailure Disk := do
  checked path
  let l ← d.followAll (d.start path) (Path.pieces path)
  match d.node? l with
  | some .folder => .error .isFolder
  | _ => .ok (d.put l (.file content))

instance : FileSystem (StateM Disk) where
  isFile path := do return (← get).isFile path
  isFolder path := do return (← get).isFolder path
  readFile path := do return (← get).readFile path
  filesBelow path := do return (← get).filesBelow path
  makeFolders path := do
    let (outcome, d) := (← get).makeFolders path
    set d
    return outcome
  writeFile path content := do
    match (← get).write path (.text content) with
    | .ok d => set d; return .ok ()
    | .error e => return .error e

end Disk
end DocPages
