/-
What the program asks of a file system.
-/
namespace DocPages

/-- Why a file or folder could not be read or written. -/
inductive FileFailure where
  | system (description : String) (code : Nat)
  | notText
  | badName
deriving Repr, DecidableEq

namespace FileFailure

def missing : FileFailure := .system "No such file or directory" 2

def exists_ : FileFailure := .system "File exists" 17

def notFolder : FileFailure := .system "Not a directory" 20

def isFolder : FileFailure := .system "Is a directory" 21

def nameTooLong : FileFailure := .system "File name too long" 36

def message : FileFailure → String
  | .system description code => description ++ " (os error " ++ toString code ++ ")"
  | .notText => "stream did not contain valid UTF-8"
  | .badName => "file name contained an unexpected NUL byte"

end FileFailure

/-- Files and folders as actions of a monad, so that a run can work on real ones or on a
`Disk`. -/
class FileSystem (m : Type → Type) where
  isFile : String → m Bool
  isFolder : String → m Bool
  readFile : String → m (Except FileFailure String)
  /-- The files in a folder and in the folders below it, by their names from there on. -/
  filesBelow : String → m (List (List String))
  /-- Makes a folder and those that lead to it. -/
  makeFolders : String → m (Except FileFailure Unit)
  writeFile : String → String → m (Except FileFailure Unit)

end DocPages
