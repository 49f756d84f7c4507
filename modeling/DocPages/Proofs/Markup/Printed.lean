/-
Forests of markup and how they are written down.

A tree that came from a comment keeps some rules: names and keys are of the characters
that the tag reader takes for them, and text is never empty and never next to other
text.  `print` writes any forest, and escapes just the characters that would be read as
something else.
-/
import DocPages.Markup.Tree
import DocPages.Proofs.Text.Cutting
import Mathlib.Data.List.Chain

namespace DocPages
namespace Markup

open Text

/-! ## Well-formed forests -/

def IsName (name : String) : Prop :=
  ∃ c rest, name.toList = c :: rest ∧ isNameStart c = true ∧ ∀ d ∈ rest, isNameChar d = true

def IsKey (key : String) : Prop :=
  ∃ c rest, key.toList = c :: rest ∧ c ≠ '<' ∧ ∀ d ∈ c :: rest, isKeyChar d = true

def Node.isText : Node → Bool
  | .text _ => true
  | .element .. => false

/-- No two text nodes are neighbours. -/
def Apart (nodes : List Node) : Prop :=
  nodes.IsChain fun a b => ¬ (a.isText = true ∧ b.isText = true)

mutual
def NodeOk : Node → Prop
  | .text content => content ≠ ""
  | .element name attributes children =>
    IsName name ∧ (∀ a ∈ attributes, IsKey a.1) ∧ Apart children ∧ NodesOk children

def NodesOk : List Node → Prop
  | [] => True
  | node :: rest => NodeOk node ∧ NodesOk rest
end

/-- Names and keys are such, and text is neither empty nor next to text, at every level. -/
def WellFormed (nodes : List Node) : Prop := Apart nodes ∧ NodesOk nodes

theorem nodesOk_append {a b : List Node} : NodesOk (a ++ b) ↔ NodesOk a ∧ NodesOk b := by
  induction a with
  | nil => simp [NodesOk]
  | cons node rest ih => simp [NodesOk, ih, and_assoc]

theorem apart_append_singleton {nodes : List Node} {node : Node} :
    Apart (nodes ++ [node]) ↔
      Apart nodes ∧ ∀ last, nodes.getLast? = some last → ¬ (last.isText ∧ node.isText) := by
  rw [Apart, List.isChain_append]
  simp [Apart]

/-! ## Writing -/

/-- A character as text.  `special` is the character that needs a reference here, besides
the ampersand. -/
def escapeChar (special : Char) (reference : String) (c : Char) : List Char :=
  if c = '&' then "&amp;".toList
  else if c = special then '&' :: reference.toList ++ [';']
  else [c]

def escapeText (s : List Char) : List Char := s.flatMap (escapeChar '<' "lt")

def escapeValue (s : List Char) : List Char := s.flatMap (escapeChar '"' "quot")

def printAttribute (a : String × String) : List Char :=
  ' ' :: a.1.toList ++ '=' :: '"' :: escapeValue a.2.toList ++ ['"']

def openingTag (name : String) (attributes : Attributes) : List Char :=
  '<' :: (name.toList ++ (attributes.flatMap printAttribute ++ ['>']))

def closingTag (name : String) : List Char := '<' :: '/' :: (name.toList ++ ['>'])

mutual
def printNode : Node → List Char
  | .text content => escapeText content.toList
  | .element name attributes children =>
    openingTag name attributes ++ (printNodes children ++ closingTag name)

def printNodes : List Node → List Char
  | [] => []
  | node :: rest => printNode node ++ printNodes rest
end

def print (nodes : List Node) : String := String.ofList (printNodes nodes)

end Markup
end DocPages
