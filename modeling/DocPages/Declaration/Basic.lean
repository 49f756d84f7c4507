/-
Declarations as they are found in source text.
-/
import DocPages.Text.Cut

namespace DocPages

open Text

/-- A metadata attribute such as `[Range(0, Max = 10)]`.  An argument is its name,
which is empty for a positional one, and its text. -/
structure Attribute where
  name : String
  arguments : List (String × String) := []
deriving Repr, DecidableEq

namespace Attribute

/-- `Output` and `OutputAttribute` name the same attribute. -/
def stem (name : String) : String :=
  match stripEnd? "Attribute".toList name.toList with
  | some (c :: rest) => String.ofList (c :: rest)
  | _ => name

/-- An argument as it is written. -/
def argumentText (argument : String × String) : List Char :=
  if argument.1.isEmpty then argument.2.toList
  else argument.1.toList ++ " = ".toList ++ argument.2.toList

/-- The attribute as it is written, without the brackets of its section. -/
def render (a : Attribute) : String :=
  if a.arguments.isEmpty then a.name
  else
    a.name ++ "(" ++ String.ofList (List.intercalate ", ".toList (a.arguments.map argumentText))
      ++ ")"

end Attribute

/-- What a declaration declares. -/
inductive DeclKind where
  | classType
  | structType
  | interfaceType
  | enumType
  | method
  | property
  | field
deriving Repr, DecidableEq

namespace DeclKind

/-- The word that stands for the kind in items, options and messages. -/
def word : DeclKind → String
  | classType => "class"
  | structType => "struct"
  | interfaceType => "interface"
  | enumType => "enum"
  | method => "method"
  | property => "property"
  | field => "field"

def all : List DeclKind :=
  [classType, structType, interfaceType, enumType, method, property, field]

def ofWord? (w : String) : Option DeclKind := all.find? (·.word == w)

/-- Kinds whose bodies hold further declarations.  The values of an enum are not
declarations here. -/
def isContainer : DeclKind → Bool
  | classType | structType | interfaceType => true
  | _ => false

end DeclKind

/-- One declaration.  Only a field statement has more than one name. -/
structure Declaration where
  names : List String
  kind : DeclKind
  /-- The comment with its decoration, empty if there is none. -/
  rawComment : String := ""
  attributes : List Attribute := []
  baseTypes : List String := []
  /-- The index of the enclosing type in the list of declarations. -/
  parent : Option Nat := none
  /-- The dotted name of the namespace, empty for the global one. -/
  inNamespace : String := ""
deriving Repr, DecidableEq

namespace Declaration

/-- Stretches of source text that have to be closed. -/
inductive Enclosed where
  | blockComment
  | stringLiteral
  | charLiteral
  | block
  | propertyInitializer
  | attributeSection
deriving Repr, DecidableEq

def Enclosed.describe : Enclosed → String
  | blockComment => "block comment"
  | stringLiteral => "string literal"
  | charLiteral => "character literal"
  | block => "block"
  | propertyInitializer => "property initializer"
  | attributeSection => "attribute section"

/-- Why a source text could not be scanned.  Lines count from one. -/
inductive Fault where
  | unbalancedBrace (line : Nat)
  | unterminated (what : Enclosed) (line : Nat)
  | unclosedScope (count : Nat)
deriving Repr, DecidableEq

def Fault.message : Fault → String
  | unbalancedBrace line => "unbalanced '\x7d' on line " ++ toString line
  | unterminated what line =>
    "unterminated " ++ what.describe ++ " starting on line " ++ toString line
  | unclosedScope count => toString count ++ " scope(s) still open at end of file"

end Declaration
end DocPages
