/-
The program.
-/
import DocPages.CommandLine.Run

open DocPages

namespace DocPages
namespace RealFiles

/-- What went wrong, in the words of the system. -/
def failure (e : IO.Error) : FileFailure :=
  match e with
  | .noFileOrDirectory .. => .missing
  | .alreadyExists .. => .exists_
  | .inappropriateType _ code details => .system details code.toNat
  | .permissionDenied _ code details => .system details code.toNat
  | .resourceExhausted _ code details => .system details code.toNat
  | .invalidArgument _ code details => .system details code.toNat
  | .otherError code details => .system details code.toNat
  | e => .system (toString e) 5

def attempt {α : Type} (action : IO α) : IO (Except FileFailure α) := do
  match ← action.toBaseIO with
  | .ok a => return .ok a
  | .error e => return .error (failure e)

/-- Names below a folder, folders being entered. -/
partial def walk (folder : String) (names : List String) : IO (List (List String)) := do
  let here ← IO.FS.realPath ("/".intercalate (folder :: names))
  let mut found := []
  for entry in ← here.readDir do
    let below := names ++ [entry.fileName]
    if ← entry.path.isDir then found := found ++ (← walk folder below)
    else found := found ++ [below]
  return found

def isFolder (path : String) : IO Bool := do
  match ← (IO.FS.realPath path).toBaseIO with
  | .ok real => real.isDir
  | .error _ => return false

/-- Makes a folder and those that lead to it.  The folder itself is tried first, so that
a failure is told of the path that was asked for. -/
def makeFolders (path : String) : IO (Except FileFailure Unit) := do
  if path.isEmpty then return .ok ()
  match ← attempt (IO.FS.createDir path) with
  | .ok _ => return .ok ()
  | .error e =>
    if e = .missing then attempt (IO.FS.createDirAll path)
    else if ← isFolder path then return .ok ()
    else return .error e

instance : FileSystem IO where
  isFile path := do
    match ← (IO.FS.realPath path).toBaseIO with
    | .ok real => return (← real.pathExists) && !(← real.isDir)
    | .error _ => return false
  isFolder := isFolder
  readFile path := do
    match ← attempt (IO.FS.readBinFile path) with
    | .error e => return .error e
    | .ok bytes =>
      match String.fromUTF8? bytes with
      | some text => return .ok text
      | none => return .error .notText
  filesBelow folder := do
    match ← (walk folder []).toBaseIO with
    | .ok files => return files
    | .error _ => return []
  makeFolders := makeFolders
  writeFile path content := attempt (IO.FS.writeFile path content)

end RealFiles
end DocPages

def main (arguments : List String) : IO UInt32 := do
  let outcome ← CommandLine.run arguments
  IO.print outcome.output
  for event in outcome.log do
    if event.shownAt outcome.verbosity then
      IO.eprintln (event.level.label ++ " " ++ event.message)
  match outcome.error with
  | some message => IO.eprintln ("Error: " ++ message)
  | none => pure ()
  return outcome.exitCode.toUInt32
