/-
What the text in front of a brace or a semicolon declares.

A header is read for just enough to name a declaration: identifiers, brackets and
the first assignment.
-/
import DocPages.Declaration.Basic
import DocPages.Text.Word

namespace DocPages
namespace Declaration

open Text

/-! ## Identifiers -/

/-- A text cut into its identifiers, each with its at sign, and the characters between
them. -/
inductive Piece where
  | name (content : List Char)
  | other (c : Char)
deriving Repr, DecidableEq

def Piece.chars : Piece → List Char
  | .name content => content
  | .other c => [c]

def pieces (s : List Char) : List Piece :=
  match s with
  | [] => []
  | c :: rest =>
    have := (List.dropWhile_suffix isIdentChar (l := rest)).length_le
    if isIdentStart c || (c == '@' && rest.head?.any isIdentStart) then
      .name (c :: rest.takeWhile isIdentChar) :: pieces (rest.dropWhile isIdentChar)
    else .other c :: pieces rest
termination_by s.length

def identifiers (s : List Char) : List (List Char) :=
  (pieces s).filterMap fun
    | .name content => some content
    | .other _ => none

def hasWord (word : String) (s : List Char) : Bool := (identifiers s).contains word.toList

/-- The last identifier, without its at sign. -/
def lastIdentifier (s : List Char) : Option (List Char) :=
  (identifiers s).getLast?.map (·.dropWhile (· == '@'))

/-- The text before the first identifier that is this word, or all of it. -/
def beforeWord (word : String) (s : List Char) : List Char :=
  ((pieces s).takeWhile (· ≠ .name word.toList)).flatMap Piece.chars

/-! ## Brackets -/

def isOpening (c : Char) : Bool := "([\x7b<".toList.contains c

def isClosing (c : Char) : Bool := ")]\x7d>".toList.contains c

/-- Puts a character in front of the first piece. -/
def consPiece (c : Char) : List (List Char) → List (List Char)
  | [] => [[c]]
  | piece :: rest => (c :: piece) :: rest

/-- The pieces between separators that stand outside of brackets and quotes.  `quote`
is the quote that is open, and `escaped` tells that a backslash came before. -/
def splitTopFrom (sep : Char) (depth : Nat) (quote : Option Char) (escaped : Bool) :
    List Char → List (List Char)
  | [] => [[]]
  | c :: rest =>
    match quote with
    | some q =>
      if escaped then consPiece c (splitTopFrom sep depth quote false rest)
      else if c = '\\' then consPiece c (splitTopFrom sep depth quote true rest)
      else if c = q then consPiece c (splitTopFrom sep depth none false rest)
      else consPiece c (splitTopFrom sep depth quote false rest)
    | none =>
      if c = '"' ∨ c = '\'' then consPiece c (splitTopFrom sep depth (some c) false rest)
      else if isOpening c then consPiece c (splitTopFrom sep (depth + 1) none false rest)
      else if isClosing c then consPiece c (splitTopFrom sep (depth - 1) none false rest)
      else if c = sep ∧ depth = 0 then [] :: splitTopFrom sep depth none false rest
      else consPiece c (splitTopFrom sep depth none false rest)

def splitTop (sep : Char) (s : List Char) : List (List Char) := splitTopFrom sep 0 none false s

/-- What stands before the first assignment or arrow outside of brackets and quotes,
and whether it is an arrow.  Comparisons are not assignments, and the angle bracket of
an arrow closes nothing.  `prev` is the character before. -/
def findAssignmentFrom (prev : Char) (depth : Nat) (quoted : Bool) :
    List Char → Option (List Char × Bool)
  | [] => none
  | c :: rest =>
    let next := rest.head?.getD ' '
    let go depth quoted :=
      (findAssignmentFrom c depth quoted rest).map fun found => (c :: found.1, found.2)
    if quoted then go depth (c != '"')
    else if c = '"' then go depth true
    else if isOpening c then go (depth + 1) false
    else if c = '>' then go (if prev = '=' then depth else depth - 1) false
    else if isClosing c then go (depth - 1) false
    else if c = '=' ∧ depth = 0 ∧ next ≠ '=' ∧ !"=!<>".toList.contains prev then
      some ([], next == '>')
    else go depth false

def findAssignment (s : List Char) : Option (List Char × Bool) := findAssignmentFrom ' ' 0 false s

/-- The text before the first assignment, or all of it. -/
def beforeAssignment (s : List Char) : List Char := ((findAssignment s).map Prod.fst).getD s

/-! ## Types -/

/-- A type name after a keyword, which needs blanks in between, and what follows it. -/
def readTypeName (s : List Char) : Option (List Char × List Char) :=
  if s.head?.any isBlank then
    let s := trimStart s
    let s := (stripStart? ['@'] s).getD s
    if s.head?.any isIdentStart then some (s.takeWhile isIdentChar, s.dropWhile isIdentChar)
    else none
  else none

/-- A keyword, perhaps of two words, and then a type name. -/
def readTyped (kind : DeclKind) (first : String) (second : Option String) (s : List Char) :
    Option (DeclKind × List Char × List Char) := do
  let s ← stripStart? first.toList s
  let s ← match second with
    | none => some s
    | some word => if s.head?.any isBlank then stripStart? word.toList (trimStart s) else none
  let (name, rest) ← readTypeName s
  return (kind, name, rest)

/-- The type declared at the front of a text: its kind, its name and what follows.
A record is a class unless it says otherwise. -/
def readType (s : List Char) : Option (DeclKind × List Char × List Char) :=
  readTyped .classType "class" none s
    <|> readTyped .structType "struct" none s
    <|> readTyped .interfaceType "interface" none s
    <|> readTyped .enumType "enum" none s
    <|> readTyped .classType "record" (some "class") s
    <|> readTyped .structType "record" (some "struct") s
    <|> readTyped .classType "record" none s

/-- The first type declared in a text, at the start of a word, with the text before
it. -/
def findTypeFrom (prev : Option Char) :
    List Char → Option (List Char × DeclKind × List Char × List Char)
  | [] => none
  | c :: rest =>
    match if prev.any isWordChar then none else readType (c :: rest) with
    | some found => some ([], found)
    | none => (findTypeFrom (some c) rest).map fun found => (c :: found.1, found.2)

/-- The text after the bracket that closes the one at the front, or nothing. -/
def afterBracketFrom (opening closing : Char) (depth : Nat) : List Char → List Char
  | [] => []
  | c :: rest =>
    if c = opening then afterBracketFrom opening closing (depth + 1) rest
    else if c = closing then
      if depth ≤ 1 then rest else afterBracketFrom opening closing (depth - 1) rest
    else afterBracketFrom opening closing depth rest

/-- The text after a bracketed list, if there is one, and blanks. -/
def skipBracketed (opening closing : Char) (s : List Char) : List Char :=
  if s.head? == some opening then trimStart (afterBracketFrom opening closing 0 s) else s

/-- The base types that follow a type name, its type parameters and its constructor
parameters. -/
def baseList (s : List Char) : List (List Char) :=
  match skipBracketed '(' ')' (skipBracketed '<' '>' (trimStart s)) with
  | ':' :: bases => ((splitTop ',' (beforeWord "where" bases)).map trim).filter (! ·.isEmpty)
  | _ => []

structure TypeHeader where
  kind : DeclKind
  name : List Char
  bases : List (List Char)
deriving Repr

/-- The type that a header declares.  A keyword after an opening parenthesis belongs to
a parameter or a constraint. -/
def readTypeHeader (header : List Char) : Option TypeHeader :=
  match findTypeFrom none header with
  | some (before, kind, name, rest) =>
    if before.contains '(' then none else some ⟨kind, name, baseList rest⟩
  | none => none

/-! ## Members -/

/-- A header without the type parameters at its end.  The text comes reversed, and
`depth` counts the closing brackets that are not yet matched. -/
def dropGenericReversed (depth : Nat) : List Char → Option (List Char)
  | [] => none
  | c :: rest =>
    if c = '>' then dropGenericReversed (depth + 1) rest
    else if c = '<' then
      if depth ≤ 1 then some rest else dropGenericReversed (depth - 1) rest
    else dropGenericReversed depth rest

def dropGeneric (s : List Char) : List Char :=
  if s.getLast? == some '>' then
    match dropGenericReversed 0 s.reverse with
    | some rest => trimEnd rest.reverse
    | none => s
  else s

/-- The name of a method, from a header with a parameter list.  Constructors,
finalizers, operators and indexers have none. -/
def methodName (header typeName : List Char) : Option (List Char) :=
  let head := trimEnd (header.takeWhile (· ≠ '('))
  if head.contains '~' || hasWord "operator" head then none
  else
    (lastIdentifier (dropGeneric head)).filter fun name =>
      name ≠ typeName ∧ name ≠ "this".toList

/-- The name of a property.  Events and indexers have none. -/
def propertyName (header : List Char) : Option (List Char) :=
  if occurs "this[".toList header || hasWord "event" header then none
  else lastIdentifier header

/-- The name that one declarator of a field statement declares.  Brackets after it
belong to a buffer of fixed size. -/
def declaratorName (declarator : List Char) : Option (List Char) :=
  let head := trimEnd (beforeAssignment declarator)
  lastIdentifier <|
    match stripEnd? [']'] head with
    | some inner =>
      if inner.contains '[' then ((inner.reverse.dropWhile (· ≠ '[')).drop 1).reverse else head
    | none => head

/-- The names that a field statement declares. -/
def fieldNames (header : List Char) : List (List Char) :=
  (splitTop ',' header).filterMap declaratorName

end Declaration
end DocPages
