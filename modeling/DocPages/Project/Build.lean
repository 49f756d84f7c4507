/-
Declarations become items.

The declarations of a file come with each type before its members.  A stack of the
types that are open tells where a member goes.  A declaration without documentation is
dropped together with all that it holds.
-/
import DocPages.Comment
import DocPages.Log
import DocPages.Project.Basic

namespace DocPages
namespace Project

/-- A type whose members may follow: its index in the file, and its item unless it was
dropped. -/
abbrev OpenType := Nat × Option ItemId

/-- Where the building of one file stands. -/
structure Building where
  project : Project
  /-- The open types, the innermost first. -/
  stack : List OpenType := []
  created : Nat := 0
  log : Log := []

/-- The item that a declaration makes under one of its names. -/
def itemFor (d : Declaration) (name markup : String) : Item :=
  { Item.new name d.kind.word markup with attributes := d.attributes, baseTypes := d.baseTypes }

/-- An item for the type that was declared before under the same name and kind. -/
def earlierPart (p : Project) (d : Declaration) (parent : Option ItemId) : Option ItemId :=
  if d.kind.isContainer then
    d.names.head?.bind fun name => p.findContainer d.inNamespace parent name d.kind.word
  else none

/-- Is the name missing? -/
def isBlankName (name : String) : Bool := Text.allBlank name.toList

namespace Building

def report (b : Building) (e : Event) : Building := { b with log := b.log ++ [e] }

/-- Opens the type that a declaration declares, if it declares one. -/
def enter (b : Building) (index : Nat) (d : Declaration) (item : Option ItemId) : Building :=
  if d.kind.isContainer then { b with stack := (index, item) :: b.stack } else b

/-- Makes one item for each name.  A name that is missing is an error.  Also gives the
first item made. -/
def addNames (package path : String) (d : Declaration) (parent : Option ItemId) (markup : String)
    (b : Building) : List String → Building × Option ItemId
  | [] => (b, none)
  | name :: rest =>
    if isBlankName name then
      addNames package path d parent markup
        (b.report (.error (path ++ ": skipping " ++ d.kind.word ++ " with an empty name"))) rest
    else
      let item := itemFor d name markup
      let (project, id) :=
        match parent with
        | some parent => b.project.addMember parent item
        | none =>
          let (project, index) := b.project.namespaceIndex d.inNamespace package
          project.addTopLevel index item
      let b := { b with project, created := b.created + 1 }
      ((addNames package path d parent markup b rest).1, some id)

/-- A declaration whose container is known. -/
def place (package path : String) (index : Nat) (d : Declaration) (parent : Option ItemId)
    (b : Building) : Building :=
  let markup := Comment.normalize d.rawComment
  match b.project.earlierPart d parent with
  | some id =>
    let b := b.report (.debug
      (path ++ ": merging another part of " ++ b.project.fullName id))
    let part := itemFor d (d.names.headD "") markup
    { b with
      project := b.project.mergePart id part
      stack := (index, some id) :: b.stack }
  | none =>
    if markup.isEmpty then b.enter index d none
    else
      let (b, first) := b.addNames package path d parent markup d.names
      b.enter index d first

/-- One declaration of a file. -/
def step (package path : String) (b : Building) (index : Nat) (d : Declaration) : Building :=
  let b := { b with stack := b.stack.dropWhile fun top => some top.1 != d.parent }
  match d.parent, b.stack with
  | none, _ => b.place package path index d none
  | some _, (_, some item) :: _ => b.place package path index d (some item)
  | some _, (_, none) :: _ => b.enter index d none
  | some p, [] =>
    b.report (.warning (path ++ ": " ++ d.kind.word ++ " " ++ ", ".intercalate d.names
      ++ " is declared inside #" ++ toString p ++ " which is not open, skipping"))

/-- The declarations from an index on. -/
def steps (package path : String) (b : Building) (index : Nat) : List Declaration → Building
  | [] => b
  | d :: rest => steps package path (b.step package path index d) (index + 1) rest

end Building

/-- Adds the declarations of one file.  Gives the number of items made as well. -/
def addFile (p : Project) (package path : String) (declarations : List Declaration) :
    Project × Nat × Log :=
  let b := Building.steps package path { project := p } 0 declarations
  (b.project, b.created, b.log)

end Project
end DocPages
