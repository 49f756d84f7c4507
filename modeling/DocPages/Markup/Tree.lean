/-
From tags to a tree.
-/
import DocPages.Markup.Token

namespace DocPages
namespace Markup

/-- An element whose closing tag is still to come, with the nodes that stand before
it at its own level. -/
structure Frame where
  name : String
  attributes : Attributes
  before : List Node

/-- Text joins the text before it, so that no two text nodes are neighbours, and no
text node is empty. -/
def addText (nodes : List Node) (content : List Char) : List Node :=
  if content.isEmpty then nodes
  else
    match nodes.getLast? with
    | some (.text before) => nodes.dropLast ++ [.text (before ++ String.ofList content)]
    | _ => nodes ++ [.text (String.ofList content)]

/-- Builds the tree from the left.  `nodes` is what the innermost open element holds
so far and `stack` the elements that are open, the innermost first. -/
def grow (nodes : List Node) (stack : List Frame) : List Token → Except Fault (List Node)
  | [] =>
    match stack with
    | [] => .ok nodes
    | frame :: _ => .error (.unclosed frame.name)
  | .text content :: rest => grow (addText nodes content) stack rest
  | .selfClosing name attributes :: rest =>
    grow (nodes ++ [.element name attributes []]) stack rest
  | .opening name attributes :: rest => grow [] (⟨name, attributes, nodes⟩ :: stack) rest
  | .closing name offset :: rest =>
    match stack with
    | [] => .error (.unopenedClose name)
    | frame :: outer =>
      if frame.name = name then
        grow (frame.before ++ [.element frame.name frame.attributes nodes]) outer rest
      else .error (.mismatchedClose frame.name name offset)
  | .malformed offset :: _ => .error (.malformedTag offset)

/-- The nodes at the top level of a comment, or its leftmost fault. -/
def parse (input : String) : Except Fault (List Node) := grow [] [] (tokens input.toList)

end Markup
end DocPages
