/-
The parts of a page, in the order in which they are written.

A part is written as Markdown, and some parts are also reported.  A page is nothing but
its list of parts, so what a page holds can be told without reading Markdown.
-/
import DocPages.Log
import DocPages.Page.Names
import DocPages.Prose

namespace DocPages
namespace Page

/-- A line of the contents: a link to an anchor of the page, or to another page. -/
inductive ContentsLine where
  | anchor (depth : Nat) (kind name : String)
  | page (depth : Nat) (kind name file : String)
deriving Repr, DecidableEq

inductive Part where
  | anchor (kind name : String)
  | title (fullName : String)
  | contents (lines : List ContentsLine)
  | group (level : Nat) (title : String)
  | heading (level : Nat) (text : String)
  | prose (entry : Entry) (level : Nat) (showAttributes : Bool)
  | skipped (reason : Skip)
deriving Repr

/-- The link target of an item on its page. -/
def anchorId (kind name : String) : String := Naming.anchor kind ++ "-" ++ Naming.anchor name

def ContentsLine.render : ContentsLine → String
  | .anchor depth kind name =>
    indent depth ++ "- [" ++ kind ++ " " ++ name ++ "](#" ++ anchorId kind name ++ ")\n"
  | .page depth kind name file =>
    indent depth ++ "- [" ++ kind ++ " " ++ name ++ "](" ++ file ++ ".md)\n"
where
  indent (depth : Nat) : String := String.ofList (List.replicate (2 * depth) ' ')

/-- The lines above the prose of an item: its attributes and its base types. -/
def preamble (item : Item) (showAttributes : Bool) : String :=
  let attributes :=
    if showAttributes && !item.attributes.isEmpty then
      String.join (item.attributes.map fun a => "*" ++ a.render ++ "*\n") ++ "\n"
    else ""
  let bases :=
    if item.baseTypes.isEmpty then ""
    else "Inherits: " ++ ", ".intercalate (item.baseTypes.map fun b => "`" ++ b ++ "`") ++ "\n\n"
  attributes ++ bases

/-- The documentation of an item, or a notice if it cannot be read. -/
def proseText (item : Item) (level : Nat) : String :=
  match Prose.render item.markup level with
  | .ok text => text
  | .error fault => Prose.faultBlock fault item.markup

def hashes (level : Nat) : String := String.ofList (Prose.hashes level)

def Part.render : Part → String
  | .anchor kind name => "<a id=\"" ++ anchorId kind name ++ "\"></a>\n"
  | .title fullName => "# " ++ fullName ++ "\n\n"
  | .contents lines =>
    "## Table of Contents\n" ++ String.join (lines.map ContentsLine.render) ++ "\n"
  | .group level name => hashes level ++ " " ++ name ++ "\n\n"
  | .heading level text => hashes level ++ " " ++ text ++ "\n\n"
  | .prose entry level showAttributes =>
    preamble entry.item showAttributes ++ proseText entry.item level
  | .skipped _ => ""

def Skip.event : Skip → Event
  | .noName kind => .error ("skipping " ++ kind ++ " with an empty name")
  | .noMarkup fullName => .warning ("empty documentation on " ++ fullName)

/-- What a part reports. -/
def Part.log : Part → Log
  | .prose entry level _ =>
    match Prose.render entry.item.markup level with
    | .ok _ => []
    | .error fault =>
      [.error ("malformed documentation on " ++ entry.fullName ++ ": " ++ fault.message)]
  | .skipped reason => [reason.event]
  | _ => []

/-! ## Contents -/

mutual
/-- The contents of an outline.  Nested types that have pages of their own are linked by
the file names they were given. -/
def contentsLines (o : Options) (names : Names) (depth : Nat) : Outline → List ContentsLine
  | .node e leaves nested =>
    let shown := leaves.filter fun m => !m.isBlank
    .anchor depth e.item.kind e.item.name
      :: shown.map (fun m => .anchor (depth + 1) m.item.kind m.item.name)
      ++ nestedLines o names (depth + 1) nested

def nestedLines (o : Options) (names : Names) (depth : Nat) : List Outline → List ContentsLine
  | [] => []
  | first :: rest =>
    let e := first.entry
    let lines :=
      if e.isBlank then []
      else if o.inlineTypes then contentsLines o names depth first
      else
        match names.find? e.id with
        | some file => [.page depth e.item.kind e.item.name file]
        | none => []
    lines ++ nestedLines o names depth rest
end

/-! ## Text -/

/-- The anchor of an entry, which is written only if there are contents that link to
it. -/
def anchorParts (o : Options) (e : Entry) : List Part :=
  if o.writeContents then [.anchor e.item.kind e.item.name] else []

/-- Members in groups by kind.  `current` is the kind whose group is open. -/
def memberParts (o : Options) (level : Nat) (current : Option String) : List Entry → List Part
  | [] => []
  | m :: rest =>
    match m.skip? with
    | some reason => .skipped reason :: memberParts o level current rest
    | none =>
      let group :=
        if current == some m.item.kind then []
        else ((o.kinds.title m.item.kind).map (Part.group level)).toList
      group ++ anchorParts o m
        ++ [.heading (level + 1) (o.kinds.heading m.item.name m.item.kind),
            .prose m (level + 1) o.writeAttributes]
        ++ memberParts o level (some m.item.kind) rest

mutual
/-- The prose of an item, its members, and the nested types that are part of its page. -/
def bodyParts (o : Options) (level : Nat) : Outline → List Part
  | .node e leaves nested =>
    .prose e level o.writeAttributes :: memberParts o level none leaves
      ++ (if o.inlineTypes then nestedParts o level nested else [])

def nestedParts (o : Options) (level : Nat) : List Outline → List Part
  | [] => []
  | first :: rest =>
    let e := first.entry
    let parts :=
      match e.skip? with
      | some reason => [.skipped reason]
      | none =>
        anchorParts o e ++ [.heading level (o.kinds.heading e.item.name e.item.kind)]
          ++ bodyParts o (level + 1) first
    parts ++ nestedParts o level rest
end

/-- A whole page. -/
def parts (o : Options) (names : Names) (outline : Outline) : List Part :=
  let e := outline.entry
  anchorParts o e
    ++ (if o.writeTitle then [.title e.fullName] else [])
    ++ (if o.writeContents then [.contents (contentsLines o names 0 outline)] else [])
    ++ bodyParts o 2 outline

end Page
end DocPages
