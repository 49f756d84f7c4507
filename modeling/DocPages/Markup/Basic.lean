/-
The tree of a documentation comment.
-/
namespace DocPages
namespace Markup

abbrev Attributes := List (String × String)

/-- Text, or an element with its attributes in written order. -/
inductive Node where
  | text (content : String)
  | element (name : String) (attributes : Attributes) (children : List Node)
deriving Repr, Inhabited

namespace Attributes

/-- The value of the first attribute of that name. -/
def get? (attributes : Attributes) (name : String) : Option String :=
  attributes.lookup name

/-- The value of the first attribute of that name, unless it is empty. -/
def getFilled? (attributes : Attributes) (name : String) : Option String :=
  (attributes.get? name).filter (! ·.isEmpty)

end Attributes

namespace Node

mutual
/-- All text below a node, in document order. -/
def plainText : Node → String
  | .text content => content
  | .element _ _ children => plainTexts children

def plainTexts : List Node → String
  | [] => ""
  | node :: rest => plainText node ++ plainTexts rest
end

/-- The name of an element. -/
def name? : Node → Option String
  | .text _ => none
  | .element name _ _ => some name

end Node

/-- Why a comment is not well-formed markup.  Offsets are in bytes. -/
inductive Fault where
  | mismatchedClose (expected found : String) (offset : Nat)
  | unopenedClose (name : String)
  | unclosed (name : String)
  | malformedTag (offset : Nat)
deriving Repr, DecidableEq

def Fault.message : Fault → String
  | .mismatchedClose expected found offset =>
    "unexpected closing tag </" ++ found ++ "> at offset " ++ toString offset
      ++ ", expected </" ++ expected ++ ">"
  | .unopenedClose name => "closing tag </" ++ name ++ "> has no matching opening tag"
  | .unclosed name => "tag <" ++ name ++ "> is never closed"
  | .malformedTag offset => "malformed tag at offset " ++ toString offset

end Markup
end DocPages
