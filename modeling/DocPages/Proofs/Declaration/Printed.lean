/-
Forests of declarations and how they are written down.

A forest is printed with its documentation lines, an attribute section, the header and
then a body or a semicolon.  `declared` lists the declarations that its text makes.
-/
import DocPages.Declaration.Header
import DocPages.Proofs.Declaration.Closed

namespace DocPages
namespace Declaration

open Text

/-! ## Names and types -/

/-- The words by which a header says what it declares.  Every other identifier is a
name, those of the predefined types included. -/
def reserved : List (List Char) :=
  ["class", "struct", "interface", "enum", "record", "where", "event", "delegate", "operator",
   "this", "using", "global", "extern", "namespace"].map String.toList

structure IsWord (chars : List Char) : Prop where
  starts : chars.head?.any isIdentStart = true
  inside : ∀ c ∈ chars, isIdentChar c = true

structure Name where
  chars : List Char
  word : IsWord chars
  free : chars ∉ reserved

mutual
/-- A dotted name, each part of which may have type arguments. -/
inductive TypeName where
  | simple (name : Name) (arguments : List TypeExpr)
  | member (outer : TypeName) (name : Name) (arguments : List TypeExpr)

/-- The rank of an array is one more than its commas. -/
inductive TypeExpr where
  | named (name : TypeName)
  | array (element : TypeExpr) (commas : Nat)
  | nullable (inner : TypeExpr)
end

def joined (texts : List (List Char)) : List Char := List.intercalate ", ".toList texts

def genericText (name : Name) (arguments : List (List Char)) : List Char :=
  if arguments.isEmpty then name.chars else name.chars ++ '<' :: (joined arguments ++ ['>'])

mutual
def TypeName.text : TypeName → List Char
  | .simple name arguments => genericText name (typeTexts arguments)
  | .member outer name arguments => outer.text ++ '.' :: genericText name (typeTexts arguments)

def TypeExpr.text : TypeExpr → List Char
  | .named name => name.text
  | .array element commas => element.text ++ '[' :: (List.replicate commas ',' ++ [']'])
  | .nullable inner => inner.text ++ ['?']

def typeTexts : List TypeExpr → List (List Char)
  | [] => []
  | t :: rest => t.text :: typeTexts rest
end

/-! ## Declarations -/

/-- What follows the slashes of a documentation line, its leading blanks included. -/
structure DocLine where
  text : List Char
  oneLine : '\n' ∉ text
  threeSlashes : Stops (· == '/') text

/-- What stands in front of a header. -/
structure Lead where
  docs : List DocLine
  attributes : List TypeName

structure Body where
  text : List Char
  closed : LexicallyClosed text

inductive Member where
  | field (lead : Lead) (type : TypeExpr) (first : Name) (more : List Name)
  | method (lead : Lead) (type : TypeExpr) (name : Name) (parameters : List (TypeExpr × Name))
      (body : Option Body)
  | property (lead : Lead) (type : TypeExpr) (name : Name) (body : Body)
  | enumeration (lead : Lead) (name : Name) (body : Body)
  | type (lead : Lead) (kind : DeclKind) (isContainer : kind.isContainer = true) (name : Name)
      (bases : List TypeName) (members : List Member)

/-- A namespace with a dotted name, or a declaration. -/
inductive Entry where
  | block (first : Name) (more : List Name) (entries : List Entry)
  | declaration (member : Member)

mutual
/-- A field, method or property stands in a type, and no method has the name of its
type, which is given as `owner`. -/
def Member.Fits (owner : Option (List Char)) : Member → Prop
  | .field .. => owner.isSome
  | .method _ _ name _ _ => owner.isSome ∧ owner ≠ some name.chars
  | .property .. => owner.isSome
  | .enumeration .. => True
  | .type _ _ _ name _ members => MembersFit (some name.chars) members

def MembersFit (owner : Option (List Char)) : List Member → Prop
  | [] => True
  | m :: rest => m.Fits owner ∧ MembersFit owner rest
end

mutual
def Entry.Fits : Entry → Prop
  | .block _ _ entries => EntriesFit entries
  | .declaration member => member.Fits none

def EntriesFit : List Entry → Prop
  | [] => True
  | e :: rest => e.Fits ∧ EntriesFit rest
end

/-! ## Writing -/

def docText (line : DocLine) : List Char := "///".toList ++ line.text

def attributeTexts (attributes : List TypeName) : List (List Char) := attributes.map TypeName.text

def Lead.text (lead : Lead) : List Char :=
  lead.docs.flatMap (fun line => docText line ++ ['\n']) ++
    if lead.attributes.isEmpty then []
    else '[' :: (joined (attributeTexts lead.attributes) ++ "]\n".toList)

def typedText (type : TypeExpr) (rest : List Char) : List Char := type.text ++ ' ' :: rest

def parameterText (parameter : TypeExpr × Name) : List Char :=
  typedText parameter.1 parameter.2.chars

def fieldHeader (type : TypeExpr) (names : List Name) : List Char :=
  typedText type (joined (names.map (·.chars)))

def methodHeader (type : TypeExpr) (name : Name) (parameters : List (TypeExpr × Name)) :
    List Char :=
  typedText type (name.chars ++ '(' :: (joined (parameters.map parameterText) ++ [')']))

def propertyHeader (type : TypeExpr) (name : Name) : List Char := typedText type name.chars

def basesText (bases : List TypeName) : List Char :=
  if bases.isEmpty then [] else " : ".toList ++ joined (bases.map TypeName.text)

def typeHeader (kind : DeclKind) (name : Name) (bases : List TypeName) : List Char :=
  kind.word.toList ++ ' ' :: (name.chars ++ basesText bases)

def namespaceName (names : List Name) : List Char :=
  List.intercalate ['.'] (names.map (·.chars))

def namespaceHeader (names : List Name) : List Char := "namespace ".toList ++ namespaceName names

def braced (inside : List Char) : List Char := " \x7b".toList ++ (inside ++ "\x7d\n".toList)

def endText : Option Body → List Char
  | some body => braced body.text
  | none => ";\n".toList

mutual
def Member.text : Member → List Char
  | .field lead type first more => lead.text ++ (fieldHeader type (first :: more) ++ endText none)
  | .method lead type name parameters body =>
    lead.text ++ (methodHeader type name parameters ++ endText body)
  | .property lead type name body => lead.text ++ (propertyHeader type name ++ braced body.text)
  | .enumeration lead name body => lead.text ++ (typeHeader .enumType name [] ++ braced body.text)
  | .type lead kind _ name bases members =>
    lead.text ++ (typeHeader kind name bases ++ braced ('\n' :: membersText members))

def membersText : List Member → List Char
  | [] => []
  | m :: rest => m.text ++ membersText rest
end

mutual
def Entry.text : Entry → List Char
  | .block first more entries =>
    namespaceHeader (first :: more) ++ braced ('\n' :: entriesText entries)
  | .declaration member => member.text

def entriesText : List Entry → List Char
  | [] => []
  | e :: rest => e.text ++ entriesText rest
end

def print (forest : List Entry) : String := String.ofList (entriesText forest)

/-! ## What is declared -/

/-- Where a declaration stands: the dotted names of the namespaces around it, the
outermost first, and the index of the type around it. -/
structure Place where
  namespaces : List (List Char)
  parent : Option Nat

def plainAttributes (attributes : List TypeName) : List Attribute :=
  attributes.map fun a => ⟨String.ofList a.text, []⟩

/-- A declaration with what leads it and where it stands. -/
def Lead.declaration (lead : Lead) (place : Place) (names : List Name) (kind : DeclKind)
    (bases : List TypeName := []) : Declaration where
  names := names.map fun name => String.ofList name.chars
  kind := kind
  rawComment := String.ofList (List.intercalate ['\n'] (lead.docs.map docText))
  attributes := plainAttributes lead.attributes
  baseTypes := bases.map fun b => String.ofList b.text
  parent := place.parent
  inNamespace := String.ofList (List.intercalate ['.'] place.namespaces)

section Declared

-- Properties can be left out of the list by their types.
variable (keep : TypeExpr → Bool)

mutual
/-- The declarations that a member makes, itself before its own members.  The first
gets the index `start`. -/
def Member.declared (place : Place) (start : Nat) : Member → List Declaration
  | .field lead _ first more => [lead.declaration place (first :: more) .field]
  | .method lead _ name _ _ => [lead.declaration place [name] .method]
  | .property lead type name _ =>
    if keep type then [lead.declaration place [name] .property] else []
  | .enumeration lead name _ => [lead.declaration place [name] .enumType]
  | .type lead kind _ name bases members =>
    lead.declaration place [name] kind bases ::
      membersDeclared { place with parent := some start } (start + 1) members

def membersDeclared (place : Place) (start : Nat) : List Member → List Declaration
  | [] => []
  | m :: rest =>
    m.declared place start ++
      membersDeclared place (start + (m.declared place start).length) rest
end

mutual
def Entry.declared (namespaces : List (List Char)) (start : Nat) : Entry → List Declaration
  | .block first more entries =>
    entriesDeclared (namespaces ++ [namespaceName (first :: more)]) start entries
  | .declaration member => member.declared keep ⟨namespaces, none⟩ start

def entriesDeclared (namespaces : List (List Char)) (start : Nat) :
    List Entry → List Declaration
  | [] => []
  | e :: rest =>
    e.declared namespaces start ++
      entriesDeclared namespaces (start + (e.declared namespaces start).length) rest
end

/-- The declarations of a forest, each after the type it stands in. -/
def declared (forest : List Entry) : List Declaration := entriesDeclared keep [] 0 forest

end Declared

/-! ## Property types -/

mutual
def Member.propertyTypes : Member → List TypeExpr
  | .property _ type _ _ => [type]
  | .type _ _ _ _ _ members => membersPropertyTypes members
  | _ => []

def membersPropertyTypes : List Member → List TypeExpr
  | [] => []
  | m :: rest => m.propertyTypes ++ membersPropertyTypes rest
end

mutual
def Entry.propertyTypes : Entry → List TypeExpr
  | .block _ _ entries => propertyTypes entries
  | .declaration member => member.propertyTypes

def propertyTypes : List Entry → List TypeExpr
  | [] => []
  | e :: rest => e.propertyTypes ++ propertyTypes rest
end

def TypeName.endsInThis : TypeName → Bool
  | .simple name [] => "this".toList.isSuffixOf name.chars
  | .member _ name [] => "this".toList.isSuffixOf name.chars
  | _ => false

def TypeExpr.endsInThis : TypeExpr → Bool
  | .named name => name.endsInThis
  | _ => false

mutual
def TypeName.hasThisArray : TypeName → Bool
  | .simple _ arguments => anyThisArray arguments
  | .member outer _ arguments => outer.hasThisArray || anyThisArray arguments

/-- Somewhere in the type is an array of a type whose name ends in `this`. -/
def TypeExpr.hasThisArray : TypeExpr → Bool
  | .named name => name.hasThisArray
  | .array element _ => element.endsInThis || element.hasThisArray
  | .nullable inner => inner.hasThisArray

def anyThisArray : List TypeExpr → Bool
  | [] => false
  | t :: rest => t.hasThisArray || anyThisArray rest
end

end Declaration
end DocPages
