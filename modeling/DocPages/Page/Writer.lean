/-
The pages of an item.
-/
import DocPages.Page.Parts

namespace DocPages

/-- A page as it is written to a file, without the file's extension. -/
structure WrittenPage where
  fileName : String
  content : String
deriving Repr, DecidableEq

namespace Page

/-- What writing comes to, in order: a page, or an item that has none. -/
inductive Output where
  | page (id : ItemId) (fileName : String) (parts : List Part)
  | skipped (reason : Skip)
deriving Repr

def Output.log : Output → Log
  | .page _ _ parts => parts.flatMap Part.log
  | .skipped reason => [reason.event]

def Output.written? : Output → Option WrittenPage
  | .page _ fileName parts => some ⟨fileName, String.join (parts.map Part.render)⟩
  | .skipped _ => none

mutual
/-- The page of an outline and then those of its nested types. -/
def outputs (o : Options) (names : Names) : Outline → List Output
  | .node e leaves nested =>
    match e.skip? with
    | some reason => [.skipped reason]
    | none =>
      match names.find? e.id with
      | none => []
      | some file =>
        .page e.id file (parts o names (.node e leaves nested))
          :: (if o.inlineTypes then [] else outputsEach o names nested)

def outputsEach (o : Options) (names : Names) : List Outline → List Output
  | [] => []
  | first :: rest => outputs o names first ++ outputsEach o names rest
end

/-- Writes the pages of one item.  All names are given out before any page is written, so
that links point to the names that are used. -/
def write (p : Project) (o : Options) (names : Names) (id : ItemId) :
    Names × List Output × Log :=
  match entryOf? p id with
  | none => (names, [], [])
  | some e =>
    let tree := outline p o.kinds e
    let (names, log) := names.assignAll o none tree
    let written := outputs o names tree
    (names, written, log ++ written.flatMap Output.log)

/-- Writes the pages of several items that share a folder. -/
def writeAll (p : Project) (o : Options) (names : Names) : List ItemId → List WrittenPage × Log
  | [] => ([], [])
  | id :: rest =>
    let (names, written, log) := write p o names id
    let (pages, more) := writeAll p o names rest
    (written.filterMap Output.written? ++ pages, log ++ more)

end Page
end DocPages
