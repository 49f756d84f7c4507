/-
The inside of an attribute section.
-/
import DocPages.Declaration.Header

namespace DocPages
namespace Declaration

open Text

/-- What a section may say that its attributes belong to. -/
def targets : List String :=
  ["assembly", "module", "field", "event", "method", "param", "property", "return", "type",
   "typevar"]

/-- The target of a section and what follows its colon.  What follows is on one line,
its first character apart, and a second colon would make it a qualified name. -/
def readTarget (s : List Char) : Option (String × List Char) :=
  targets.findSome? fun target =>
    match (stripStart? target.toList (trimStart s)).map trimStart with
    | some (':' :: c :: rest) =>
      if c ≠ ':' ∧ !rest.contains '\n' then some (target, c :: rest) else none
    | _ => none

/-- A named argument: an identifier, an equals sign or a colon, and a value on one
line.  Two equals signs are a comparison. -/
def readNamed (s : List Char) : Option (List Char × List Char) :=
  let s := (stripStart? ['@'] s).getD s
  if s.head?.any isIdentStart then
    let name := s.takeWhile isIdentChar
    match trimStart (s.dropWhile isIdentChar) with
    | c :: rest =>
      if c = '=' ∨ c = ':' then
        let value := trimStart rest
        if value.isEmpty || value.contains '\n' then none
        else if value.head? == some '=' && !rest.head?.any isBlank then none
        else some (name, trim value)
      else none
    | [] => none
  else none

/-- One argument, which is positional unless it is named. -/
def readArgument (s : List Char) : String × String :=
  match readNamed s with
  | some (name, value) => (String.ofList name, String.ofList value)
  | none => ("", String.ofList s)

/-- The trimmed pieces between commas that are not empty. -/
def commaList (s : List Char) : List (List Char) :=
  ((splitTop ',' s).map trim).filter (! ·.isEmpty)

/-- The text between the parentheses of an attribute.  The closing one may be missing. -/
def argumentText (s : List Char) : List Char := (stripEnd? [')'] (trimEnd s)).getD s

def readAttribute (s : List Char) : Attribute :=
  match breakOn ['('] s with
  | some (name, rest) =>
    ⟨String.ofList (trim name), (commaList (argumentText rest)).map readArgument⟩
  | none => ⟨String.ofList s, []⟩

/-- The attributes of a section.  Those of an assembly or a module belong to no
declaration. -/
def readAttributes (inner : List Char) : List Attribute :=
  match readTarget inner with
  | some (target, body) =>
    if target = "assembly" ∨ target = "module" then [] else (commaList body).map readAttribute
  | none => (commaList inner).map readAttribute

end Declaration
end DocPages
