/-
Markdown prose from markup.

Each element at the top level of a comment becomes one or more blocks: paragraphs,
headings and bullets.  What is nested inside is written as running text.  An element
that is not known becomes a section named after it, so nothing is lost.
-/
import DocPages.Markup.Tree
import DocPages.Naming

namespace DocPages
namespace Prose

open Text Markup

/-! ## Running text -/

/-- No more than two newlines in a row; `run` of them have just been kept. -/
def collapseFrom (run : Nat) : List Char → List Char
  | [] => []
  | c :: rest =>
    if c = '\n' then
      if 2 ≤ run then collapseFrom run rest else c :: collapseFrom (run + 1) rest
    else c :: collapseFrom 0 rest

/-- Trimmed text without longer gaps than one blank line. -/
def tidy (s : List Char) : List Char := collapseFrom 0 (trim s)

/-- Text set as code within a line. -/
def codeSpan (s : List Char) : List Char := '`' :: s ++ ['`']

/-- A link, which shows its address if it has no text of its own. -/
def link (label address : List Char) : List Char :=
  let label := if label.isEmpty then address else label
  '[' :: label ++ "](".toList ++ address ++ [')']

/-- One entry of a list: its term, if it has one, and its description. -/
abbrev Entry := Option (List Char) × List Char

/-- Text for a table cell, which may hold neither a bar nor a newline. -/
def cell (s : List Char) : List Char :=
  s.flatMap fun c => if c = '|' then ['\\', '|'] else if c = '\n' then [' '] else [c]

def entryText : Entry → List Char
  | (some term, description) => "**".toList ++ term ++ "**: ".toList ++ description
  | (none, description) => description

def tableRow (entry : Entry) : List Char :=
  "| ".toList ++ cell (entry.1.getD []) ++ " | ".toList ++ cell entry.2 ++ " |\n".toList

def numberedRows (first : Nat) : List Entry → List Char
  | [] => []
  | entry :: rest =>
    (toString first).toList ++ ". ".toList ++ entryText entry ++ ['\n']
      ++ numberedRows (first + 1) rest

/-- A list of the given style.  A style that is not known is a bullet list. -/
def listText (style : String) (entries : List Entry) : List Char :=
  let rows :=
    match style with
    | "table" =>
      "| Term | Description |\n|------|-------------|\n".toList ++ entries.flatMap tableRow
    | "number" => numberedRows 1 entries
    | _ => entries.flatMap fun entry => "- ".toList ++ entryText entry ++ ['\n']
  "\n\n".toList ++ rows ++ ['\n']

mutual
/-- A node as running text. -/
def inlineNode : Node → List Char
  | .text content => content.toList
  | .element name attributes children =>
    match name with
    | "c" => codeSpan (Node.plainTexts children).toList
    | "code" =>
      "\n```csharp\n".toList ++ trim (Node.plainTexts children).toList ++ "\n```\n".toList
    | "para" => "\n\n".toList ++ tidy (inlineNodes children) ++ "\n\n".toList
    | "see" =>
      match attributes.getFilled? "cref", attributes.getFilled? "href",
          attributes.getFilled? "langword" with
      | some ref, _, _ => codeSpan (Naming.crossRef ref).toList
      | _, some address, _ => link (tidy (inlineNodes children)) address.toList
      | _, _, some word => codeSpan word.toList
      | _, _, _ => tidy (inlineNodes children)
    | "paramref" | "typeparamref" => codeSpan ((attributes.get? "name").getD "").toList
    | "list" => listText ((attributes.get? "type").getD "bullet") (listEntries children)
    | _ => tidy (inlineNodes children)

def inlineNodes : List Node → List Char
  | [] => []
  | node :: rest => inlineNode node ++ inlineNodes rest

/-- The entries of a list, from its item elements. -/
def listEntries : List Node → List Entry
  | [] => []
  | .element "item" _ children :: rest =>
    let term := childText "term" children
    let description :=
      match childText "description" children, term with
      | some description, _ => description
      | none, none => tidy (inlineNodes children)
      | none, some _ => []
    (term, description) :: listEntries rest
  | _ :: rest => listEntries rest

/-- The running text of the first element of that name. -/
def childText (wanted : String) : List Node → Option (List Char)
  | [] => none
  | .element name _ children :: rest =>
    if name = wanted then some (tidy (inlineNodes children)) else childText wanted rest
  | .text _ :: rest => childText wanted rest
end

/-- Nodes as running text without loose ends. -/
def inline (nodes : List Node) : List Char := tidy (inlineNodes nodes)

/-- The text of a return value, where each code span starts a line and is its bold
label.  `out` is what has been written. -/
def labelledFrom (out : List Char) : List Node → List Char
  | [] => out
  | .element "c" _ children :: rest =>
    let out := trimEnd out
    let out := if out.isEmpty then out else out ++ ['\n']
    labelledFrom (out ++ "**".toList ++ trim (Node.plainTexts children).toList ++ "**".toList) rest
  | node :: rest => labelledFrom (out ++ inlineNode node) rest

def labelled (nodes : List Node) : List Char := tidy (labelledFrom [] nodes)

/-! ## Blocks -/

/-- What prose is made of.  A `gap` ends a list of bullets. -/
inductive Block where
  | paragraph (content : List Char)
  | heading (level : Nat) (title : String)
  | bullet (content : List Char)
  | gap
deriving Repr, DecidableEq

/-- The marks of a heading.  Markdown knows the levels one to six. -/
def hashes (level : Nat) : List Char := List.replicate (max 1 (min level 6)) '#'

def Block.render : Block → List Char
  | .paragraph content => content ++ "\n\n".toList
  | .heading level title => hashes level ++ [' '] ++ title.toList ++ ['\n']
  | .bullet content => "- ".toList ++ content ++ ['\n']
  | .gap => ['\n']

/-- Elements that are collected under one heading as bullets. -/
def isListed (name : String) : Bool :=
  ["param", "typeparam", "exception", "seealso"].contains name

/-- What a bullet says.  -/
def bulletText (name : String) (attributes : Attributes) (children : List Node) : List Char :=
  match name with
  | "exception" =>
    (Naming.crossRef ((attributes.get? "cref").getD "")).toList ++ ": ".toList ++ inline children
  | "seealso" =>
    match attributes.getFilled? "cref", attributes.getFilled? "href" with
    | some ref, _ => (Naming.crossRef ref).toList
    | none, some address => link (inline children) address.toList
    | none, none => inline children
  | _ => ((attributes.get? "name").getD "").toList ++ ": ".toList ++ inline children

/-- The heading above the bullets of an element. -/
def listHeading (name : String) : String :=
  match name with
  | "exception" => "Exceptions"
  | "seealso" => "See Also"
  | _ => Naming.capitalize name ++ "eters"

/-- One element at the top level.  `first` and `last` tell whether it is the first
and the last of its name there. -/
def elementBlocks (level : Nat) (first last : Bool) (name : String) (attributes : Attributes)
    (children : List Node) : List Block :=
  if isListed name then
    (if first then [.heading level (listHeading name)] else [])
      ++ [.bullet (bulletText name attributes children)]
      ++ (if last then [.gap] else [])
  else
    match name with
    | "summary" => [.paragraph (inline children)]
    | "returns" => [.heading level "Returns", .paragraph (labelled children)]
    | "value" => [.heading level "Value", .paragraph (inline children)]
    | "para" | "code" | "list" | "c" | "see" | "paramref" | "typeparamref" =>
      [.paragraph (tidy (inlineNode (.element name attributes children)))]
    | _ => [.heading level (Naming.capitalize name), .paragraph (inline children)]

/-- The blocks of the nodes at the top level; `seen` holds the names of the elements
before them. -/
def blocksFrom (level : Nat) (seen : List String) : List Node → List Block
  | [] => []
  | .text content :: rest =>
    let content := trim content.toList
    (if content.isEmpty then [] else [.paragraph content]) ++ blocksFrom level seen rest
  | .element name attributes children :: rest =>
    let first := !seen.contains name
    let last := !(rest.filterMap Node.name?).contains name
    elementBlocks level first last name attributes children
      ++ blocksFrom level (name :: seen) rest

def blocks (level : Nat) (nodes : List Node) : List Block := blocksFrom level [] nodes

/-- Markup as Markdown.  Headings are one level below `level`. -/
def render (markup : String) (level : Nat) : Except Fault String := do
  let nodes ← parse markup
  return String.ofList ((blocks (level + 1) nodes).flatMap Block.render)

/-! ## Comments that cannot be read -/

/-- The length of the longest run of backticks; `run` of them have just been passed. -/
def longestTicks (run : Nat) : List Char → Nat
  | [] => run
  | c :: rest => if c = '`' then longestTicks (run + 1) rest else max run (longestTicks 0 rest)

/-- A notice of the fault, and then the markup as it stands.  The fence around it is
longer than any run of backticks inside. -/
def faultBlock (fault : Fault) (markup : String) : String :=
  let fence := String.ofList (List.replicate (max (longestTicks 0 markup.toList) 2 + 1) '`')
  "> **Documentation parse error:** " ++ fault.message ++ "\n\n" ++ fence ++ "xml\n" ++ markup
    ++ "\n" ++ fence ++ "\n\n"

end Prose
end DocPages
