/-
Paths as text.

A path is kept as it was written, since that is how it is shown.  Its components are
what it means.
-/
import DocPages.Text.Cut

namespace DocPages
namespace Path

open Text

inductive Component where
  | root
  | current
  | parent
  | normal (name : String)
deriving Repr, DecidableEq

/-- The pieces between slashes, empty ones included. -/
def pieces (path : String) : List (List Char) := splitAt (· == '/') path.toList

def isAbsolute (path : String) : Bool := path.toList.head? == some '/'

/-- The component that a piece stands for, if it means anything behind others. -/
def component? (piece : List Char) : Option Component :=
  if piece = [] ∨ piece = ['.'] then none
  else if piece = ['.', '.'] then some .parent
  else some (.normal (String.ofList piece))

/-- The components of a path.  A dot counts only at the front. -/
def components (path : String) : List Component :=
  match pieces path with
  | [] => []
  | first :: rest =>
    let start :=
      if first = [] then (if isAbsolute path then [.root] else [])
      else if first = ['.'] then [.current]
      else (component? first).toList
    start ++ rest.filterMap component?

/-- Appends a piece, which replaces the whole path if it starts at the root. -/
def join (path piece : String) : String :=
  if isAbsolute piece then piece
  else if path.isEmpty || path.toList.getLast? == some '/' then path ++ piece
  else path ++ "/" ++ piece

/-- The name of the file or folder that a path ends with. -/
def fileName? (path : String) : Option String :=
  match (components path).getLast? with
  | some (.normal name) => some name
  | _ => none

/-- What follows the last dot of a file name.  A dot at the front starts no
extension. -/
def extension? (path : String) : Option String := do
  let name ← fileName? path
  match (splitAt (· == '.') name.toList).reverse with
  | last :: before :: more =>
    if more.isEmpty && before.isEmpty then none else some (String.ofList last)
  | _ => none

/-- The name under which the pages of an input folder are kept. -/
def packageName (folder : String) : String := (fileName? folder).getD folder

/-- The folder of the pages of a namespace, with a folder for each part of its dotted
path. -/
def namespaceFolder (root package directory : String) : String :=
  let parts := (splitAt (· == '.') directory.toList).filter (!·.isEmpty)
  parts.foldl (fun path part => join path (String.ofList part)) (join root package)

end Path
end DocPages
