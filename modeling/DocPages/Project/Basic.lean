/-
Documented items and the namespaces that hold them.

Items live in one array, and an item is known by its place there.  Ownership is kept
twice: a container lists its members, and a member knows its container.
-/
import DocPages.Declaration.Basic

namespace DocPages

/-- The place of an item in its project. -/
abbrev ItemId := Nat

/-- A documented declaration. -/
structure Item where
  name : String
  kind : String
  markup : String
  attributes : List Attribute := []
  baseTypes : List String := []
  /-- Kept apart from the kind, so that an item which is given another kind is still
  shown as a container. -/
  container : Bool
  members : List ItemId := []
  parent : Option ItemId := none
deriving Repr, DecidableEq

/-- A namespace.  All files that contribute to a namespace share one entry, which keeps
the package of the first. -/
structure Namespace where
  name : String
  package : String
  /-- The dotted path of its pages. -/
  directory : String
  items : List ItemId := []
deriving Repr, DecidableEq

structure Project where
  namespaces : Array Namespace := #[]
  items : Array Item := #[]
deriving Repr, DecidableEq

namespace Item

/-- The words of the kinds that hold members. -/
def isContainerWord (kind : String) : Bool :=
  (DeclKind.all.filter DeclKind.isContainer).any (·.word == kind)

def new (name kind markup : String) : Item :=
  { name, kind, markup, container := isContainerWord kind }

/-- Does the item carry an attribute of that name, with or without its suffix? -/
def hasAttribute (item : Item) (name : String) : Bool :=
  item.attributes.any fun a => Attribute.stem a.name == Attribute.stem name

/-- Adds what another part of the same type says.  What is already there is not said
twice. -/
def merge (item part : Item) : Item :=
  let markup :=
    if part.markup.isEmpty || part.markup == item.markup then item.markup
    else if item.markup.isEmpty then part.markup
    else item.markup ++ "\n" ++ part.markup
  let attributes := part.attributes.foldl
    (fun have_ a => if have_.contains a then have_ else have_ ++ [a]) item.attributes
  let baseTypes := part.baseTypes.foldl
    (fun have_ b => if have_.contains b then have_ else have_ ++ [b]) item.baseTypes
  { item with markup, attributes, baseTypes }

end Item

namespace Project

def item? (p : Project) (id : ItemId) : Option Item := p.items[id]?

def members (p : Project) (id : ItemId) : List ItemId := ((p.item? id).map Item.members).getD []

/-- Gives an item another kind. -/
def setKind (p : Project) (id : ItemId) (kind : String) : Project :=
  { p with items := p.items.modify id fun item => { item with kind } }

/-- The names on the way from the outermost container to the item.  A container stands
before its members, which is what ends the walk. -/
def path (p : Project) (id : ItemId) : List String :=
  match p.item? id with
  | none => []
  | some item =>
    match item.parent with
    | none => [item.name]
    | some parent => if parent < id then p.path parent ++ [item.name] else [item.name]
termination_by id

/-- The dotted name of an item within its namespace. -/
def fullName (p : Project) (id : ItemId) : String := ".".intercalate (p.path id)

/-- The index of the namespace of that name, which is made if there is none. -/
def namespaceIndex (p : Project) (name package : String) : Project × Nat :=
  match p.namespaces.findIdx? (·.name == name) with
  | some index => (p, index)
  | none =>
    ({ p with namespaces := p.namespaces.push { name, package, directory := name } },
      p.namespaces.size)

/-- A new item without members. -/
def push (p : Project) (item : Item) (parent : Option ItemId) : Project × ItemId :=
  ({ p with items := p.items.push { item with parent, members := [] } }, p.items.size)

/-- Adds an item at the top level of a namespace. -/
def addTopLevel (p : Project) (index : Nat) (item : Item) : Project × ItemId :=
  let (p, id) := p.push item none
  ({ p with namespaces := p.namespaces.modify index fun ns => { ns with items := ns.items ++ [id] } },
    id)

/-- Adds an item as the last member of another. -/
def addMember (p : Project) (parent : ItemId) (item : Item) : Project × ItemId :=
  let (p, id) := p.push item (some parent)
  ({ p with items := p.items.modify parent fun owner => { owner with members := owner.members ++ [id] } },
    id)

/-- The members of a container, or the items at the top of a namespace. -/
def siblings (p : Project) (inNamespace : String) : Option ItemId → List ItemId
  | some parent => p.members parent
  | none => ((p.namespaces.find? (·.name == inNamespace)).map Namespace.items).getD []

/-- A container of that name and kind among the siblings. -/
def findContainer (p : Project) (inNamespace : String) (parent : Option ItemId)
    (name kind : String) : Option ItemId :=
  (p.siblings inNamespace parent).find? fun id =>
    (p.item? id).any fun item => item.container && item.name == name && item.kind == kind

/-- Folds another part of a type into its item. -/
def mergePart (p : Project) (id : ItemId) (part : Item) : Project :=
  { p with items := p.items.modify id (·.merge part) }

/-- The items at the top of all namespaces. -/
def topLevel (p : Project) : List ItemId := p.namespaces.toList.flatMap Namespace.items

end Project
end DocPages
