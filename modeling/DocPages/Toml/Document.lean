/-
Reading a TOML document.

A document is a list of lines: pairs of a key and a value, and headers, each of which
starts a table that holds the pairs up to the next header.
-/
import DocPages.Text.Cut
import DocPages.Toml.Scalar
import DocPages.Toml.Table
import DocPages.Toml.Text

namespace DocPages
namespace Toml

open Text

/-! ## Spaces and comments -/

def skipSpace (s : List Char) : List Char := s.dropWhile isSpace

def skipComment : List Char → List Char
  | '#' :: rest => rest.dropWhile isPlain
  | s => s

theorem skipSpace_length (s : List Char) : (skipSpace s).length ≤ s.length :=
  (List.dropWhile_suffix isSpace).length_le

theorem skipComment_length (s : List Char) : (skipComment s).length ≤ s.length := by
  unfold skipComment
  split
  · rename_i rest
    have := (List.dropWhile_suffix isPlain (l := rest)).length_le
    simp only [List.length_cons]
    omega
  · exact Nat.le_refl _

/-- Spaces, comments and line breaks. -/
def skipLines (s : List Char) : List Char :=
  let t := skipComment (skipSpace s)
  match h : afterNewline? t with
  | none => t
  | some rest =>
    have : rest.length < s.length := by
      have := afterNewline?_length h
      have := skipComment_length (skipSpace s)
      have := skipSpace_length s
      simp only [t] at *
      omega
    skipLines rest
termination_by s.length

/-- What follows the end of a line, before which a comment may stand. -/
def afterLine? (s : List Char) : Option (List Char) :=
  match skipComment (skipSpace s) with
  | [] => some []
  | t => afterNewline? t

/-! ## Keys -/

def isBareKeyChar (c : Char) : Bool := c.isAlphanum || c == '-' || c == '_'

/-- One part of a key. -/
def readKeyPart? : Reader (List Char)
  | '"' :: rest => readBasic rest
  | '\'' :: rest => readLiteral rest
  | s =>
    let part := s.takeWhile isBareKeyChar
    if part.isEmpty then none else some (part, s.dropWhile isBareKeyChar)

/-- The parts of a dotted key.  The guard holds of every part, since none is read from
nothing. -/
def readKeyParts? (s : List Char) : Option (List String × List Char) := do
  let (part, rest) ← readKeyPart? (skipSpace s)
  match skipSpace rest with
  | '.' :: more =>
    if more.length < s.length then
      let (parts, rest) ← readKeyParts? more
      some (String.ofList part :: parts, rest)
    else none
  | rest => some ([String.ofList part], rest)
termination_by s.length

/-- How deep values may be nested, and how many parts a key may have. -/
def depthLimit : Nat := 79

def readKey? (s : List Char) : Option (List String × List Char) := do
  let (parts, rest) ← readKeyParts? s
  if parts.length ≤ depthLimit then some (parts, rest) else none

/-! ## Values -/

/-- The elements of an array up to its closing bracket.  A comma may follow the last. -/
def readElements? (element : Reader Value) (s : List Char) : Option (List Value × List Char) :=
  match skipLines s with
  | ']' :: rest => some ([], rest)
  | t => do
    let (value, rest) ← element t
    match skipLines rest with
    | ',' :: more =>
      if more.length < s.length then
        let (values, rest) ← readElements? element more
        some (value :: values, rest)
      else none
    | ']' :: rest => some ([value], rest)
    | _ => none
termination_by s.length

/-- A key, an equals sign and a value. -/
def readPair? (value : Reader Value) (s : List Char) :
    Option ((List String × Value) × List Char) := do
  let (key, rest) ← readKey? s
  let rest ← stripStart? ['='] rest
  let (v, rest) ← value (skipSpace rest)
  some ((key, v), rest)

/-- The pairs of an inline table up to its closing brace.  No comma follows the last. -/
def readPairs? (value : Reader Value) (s : List Char) :
    Option (List (List String × Value) × List Char) := do
  let (pair, rest) ← readPair? value s
  match skipSpace rest with
  | ',' :: more =>
    if more.length < s.length then
      let (pairs, rest) ← readPairs? value more
      some (pair :: pairs, rest)
    else none
  | '\x7d' :: rest => some ([pair], rest)
  | _ => none
termination_by s.length

def readInlineTable? (value : Reader Value) (s : List Char) : Option (Value × List Char) := do
  let (pairs, rest) ← match skipSpace s with
    | '\x7d' :: rest => some ([], rest)
    | _ => readPairs? value s
  let entries ← Entries.addValues [] pairs
  some (.table (toValues entries), rest)

/-- A value that holds no others. -/
def readSimple? (s : List Char) : Option (Value × List Char) :=
  match s with
  | '"' :: _ | '\'' :: _ => (readText? s).map fun (text, rest) => (.text (String.ofList text), rest)
  | _ =>
    match stripStart? "true".toList s, stripStart? "false".toList s with
    | some rest, _ => some (.boolean true, rest)
    | none, some rest => some (.boolean false, rest)
    | none, none => (afterScalar? s).map (.other, ·)

/-- A value in which others are nested at most `depth` deep. -/
def readValue? (depth : Nat) (s : List Char) : Option (Value × List Char) :=
  match depth, s with
  | 0, '[' :: _ => none
  | 0, '\x7b' :: _ => none
  | depth + 1, '[' :: rest =>
    (readElements? (readValue? depth) rest).map fun (elements, rest) => (.array elements, rest)
  | depth + 1, '\x7b' :: rest => readInlineTable? (readValue? depth) rest
  | _, s => readSimple? s

/-! ## Lines -/

inductive Line where
  | pair (key : List String) (value : Value)
  | table (key : List String)
  | element (key : List String)
deriving Repr

/-- A line that is neither empty nor a comment, without its end. -/
def readLine? (s : List Char) : Option (Line × List Char) :=
  match s with
  | '[' :: '[' :: rest => do
    let (key, rest) ← readKey? rest
    let rest ← stripStart? [']', ']'] rest
    some (.element key, rest)
  | '[' :: rest => do
    let (key, rest) ← readKey? rest
    let rest ← stripStart? [']'] rest
    some (.table key, rest)
  | _ => do
    let ((key, value), rest) ← readPair? (readValue? depthLimit) s
    some (.pair key value, rest)

/-- The lines of a document. -/
def readLines? (s : List Char) : Option (List Line) :=
  match skipLines s with
  | [] => some []
  | t => do
    let (line, rest) ← readLine? t
    let rest ← afterLine? rest
    if rest.length < s.length then
      let lines ← readLines? rest
      some (line :: lines)
    else none
termination_by s.length

/-- The pairs at the top, and each header with the pairs below it. -/
def sections : List Line → List (List String × Value) × List (Line × List (List String × Value))
  | [] => ([], [])
  | .pair key value :: rest =>
    let (pairs, more) := sections rest
    ((key, value) :: pairs, more)
  | header :: rest =>
    let (pairs, more) := sections rest
    ([], (header, pairs) :: more)

def addSection (entries : Entries) (part : Line × List (List String × Value)) : Option Entries :=
  match part.1 with
  | .table key => entries.addTable key part.2
  | .element key => entries.addElement key part.2
  | .pair .. => none

/-- The top table of a document, none if the document has a fault.  A byte order mark may
stand at the front. -/
def read? (document : String) : Option (List (String × Value)) := do
  let s := match document.toList with
    | '\ufeff' :: rest => rest
    | s => s
  let (pairs, parts) := sections (← readLines? s)
  let top ← Entries.addValues [] pairs
  let entries ← parts.foldlM addSection top
  some (toValues entries)

end Toml
end DocPages
