/-
Texts in TOML.

A text stands between quotes, in which escapes are read, or between apostrophes, in
which nothing is.  Three quotes or apostrophes enclose a text of several lines.
-/
import DocPages.Text.Digit

namespace DocPages
namespace Toml

open Text

/-- Reads something off the front of a text and gives what follows it. -/
abbrev Reader (α : Type) := List Char → Option (α × List Char)

/-- Characters that may stand in a text or a comment as they are. -/
def isPlain (c : Char) : Bool := c == '\t' || (decide (0x20 ≤ c.toNat) && c.toNat != 0x7f)

def isSpace (c : Char) : Bool := c == ' ' || c == '\t'

/-- What follows a line break. -/
def afterNewline? : List Char → Option (List Char)
  | '\n' :: rest => some rest
  | '\r' :: '\n' :: rest => some rest
  | _ => none

theorem afterNewline?_length {s rest : List Char} (h : afterNewline? s = some rest) :
    rest.length < s.length := by
  unfold afterNewline? at h
  split at h <;> cases h <;> simp only [List.length_cons] <;> omega

/-! ## Reading -/

/-- The character that a backslash and this letter stand for. -/
def escaped? : Char → Option Char
  | 'b' => some '\x08'
  | 't' => some '\t'
  | 'n' => some '\n'
  | 'f' => some '\x0c'
  | 'r' => some '\r'
  | '"' => some '"'
  | '\\' => some '\\'
  | _ => none

/-- The character of an escape of which the backslash has been passed. -/
def readEscape? : Reader Char
  | 'u' :: a :: b :: c :: d :: rest => do
    let code ← digitsValue? 16 hexDigit? [a, b, c, d]
    (charOfCode? code).map (·, rest)
  | 'U' :: a :: b :: c :: d :: e :: f :: g :: h :: rest => do
    let code ← digitsValue? 16 hexDigit? [a, b, c, d, e, f, g, h]
    (charOfCode? code).map (·, rest)
  | letter :: rest => (escaped? letter).map (·, rest)
  | [] => none

theorem readEscape?_length {s rest : List Char} {c : Char} (h : readEscape? s = some (c, rest)) :
    rest.length < s.length := by
  unfold readEscape? at h
  split at h
  · simp only [Option.bind_eq_bind, Option.bind_eq_some_iff, Option.map_eq_some_iff,
      Prod.mk.injEq] at h
    obtain ⟨_, _, _, _, _, rfl⟩ := h
    simp only [List.length_cons]
    omega
  · simp only [Option.bind_eq_bind, Option.bind_eq_some_iff, Option.map_eq_some_iff,
      Prod.mk.injEq] at h
    obtain ⟨_, _, _, _, _, rfl⟩ := h
    simp only [List.length_cons]
    omega
  · simp only [Option.map_eq_some_iff, Prod.mk.injEq] at h
    obtain ⟨_, _, _, rfl⟩ := h
    simp
  · cases h

/-- The rest of a text between quotes. -/
def readBasic (s : List Char) : Option (List Char × List Char) :=
  match s with
  | [] => none
  | '"' :: rest => some ([], rest)
  | '\\' :: rest =>
    match h : readEscape? rest with
    | none => none
    | some (c, after) =>
      have : after.length < rest.length + 1 := Nat.lt_succ_of_lt (readEscape?_length h)
      (readBasic after).map fun (text, rest) => (c :: text, rest)
  | c :: rest =>
    if isPlain c then (readBasic rest).map fun (text, rest) => (c :: text, rest) else none
termination_by s.length

/-- The rest of a text between apostrophes. -/
def readLiteral : Reader (List Char)
  | [] => none
  | '\'' :: rest => some ([], rest)
  | c :: rest =>
    if isPlain c then (readLiteral rest).map fun (text, rest) => (c :: text, rest) else none

/-- Up to two marks at the front.  They belong to a text whose end has been found, as
the end is as late as it can be. -/
def takeTwo (mark : Char) : List Char → List Char × List Char
  | a :: b :: rest =>
    if a = mark then (if b = mark then ([a, b], rest) else ([a], b :: rest))
    else ([], a :: b :: rest)
  | [a] => if a = mark then ([a], []) else ([], [a])
  | [] => ([], [])

/-- Spaces and line breaks. -/
def skipBlankLines : List Char → List Char
  | '\r' :: '\n' :: rest => skipBlankLines rest
  | c :: rest => if isSpace c || c == '\n' then skipBlankLines rest else c :: rest
  | [] => []

theorem skipBlankLines_length (s : List Char) : (skipBlankLines s).length ≤ s.length := by
  fun_induction skipBlankLines s <;> simp_all <;> omega

/-- What follows a backslash at the end of a line: the line break and all spaces and
line breaks behind it are passed over. -/
def afterLineEnd? (s : List Char) : Option (List Char) :=
  (afterNewline? (s.dropWhile isSpace)).map skipBlankLines

theorem afterLineEnd?_length {s rest : List Char} (h : afterLineEnd? s = some rest) :
    rest.length < s.length := by
  simp only [afterLineEnd?, Option.map_eq_some_iff] at h
  obtain ⟨t, ht, rfl⟩ := h
  have := afterNewline?_length ht
  have := skipBlankLines_length t
  have := (List.dropWhile_suffix isSpace (l := s)).length_le
  omega

/-- The rest of a text between three quotes. -/
def readLongBasic (s : List Char) : Option (List Char × List Char) :=
  match s with
  | [] => none
  | '"' :: '"' :: '"' :: rest => some (takeTwo '"' rest)
  | '\r' :: '\n' :: rest => (readLongBasic rest).map fun (text, rest) => ('\n' :: text, rest)
  | '\\' :: rest =>
    match hl : afterLineEnd? rest with
    | some after =>
      have : after.length < rest.length + 1 := Nat.lt_succ_of_lt (afterLineEnd?_length hl)
      readLongBasic after
    | none =>
      match h : readEscape? rest with
      | none => none
      | some (c, after) =>
        have : after.length < rest.length + 1 := Nat.lt_succ_of_lt (readEscape?_length h)
        (readLongBasic after).map fun (text, rest) => (c :: text, rest)
  | c :: rest =>
    if isPlain c || c == '\n' then
      (readLongBasic rest).map fun (text, rest) => (c :: text, rest)
    else none
termination_by s.length

/-- The rest of a text between three apostrophes. -/
def readLongLiteral : Reader (List Char)
  | [] => none
  | '\'' :: '\'' :: '\'' :: rest => some (takeTwo '\'' rest)
  | '\r' :: '\n' :: rest => (readLongLiteral rest).map fun (text, rest) => ('\n' :: text, rest)
  | c :: rest =>
    if isPlain c || c == '\n' then
      (readLongLiteral rest).map fun (text, rest) => (c :: text, rest)
    else none

/-- A line break right behind the opening marks does not belong to the text. -/
def dropNewline (s : List Char) : List Char := (afterNewline? s).getD s

def readText? : Reader (List Char)
  | '"' :: '"' :: '"' :: rest => readLongBasic (dropNewline rest)
  | '"' :: rest => readBasic rest
  | '\'' :: '\'' :: '\'' :: rest => readLongLiteral (dropNewline rest)
  | '\'' :: rest => readLiteral rest
  | _ => none

/-! ## Writing -/

/-- Characters that have to be escaped wherever they stand. -/
def isControl (c : Char) : Bool :=
  c != '\t' && c != '\n' && (decide (c.toNat < 0x20) || c.toNat == 0x7f)

/-- The length of the longest run of a character. -/
def longestRun (mark : Char) (s : List Char) : Nat :=
  (s.foldl (fun (run, best) c =>
    let run := if c = mark then run + 1 else 0
    (run, max best run)) (0, 0)).2

/-- How a text is enclosed. -/
inductive Style where
  | basic
  | literal
  | longBasic
  | longLiteral
deriving Repr, DecidableEq

/-- The plainest style that needs no escapes but for tabs, and else one with escapes. -/
def style (s : List Char) : Style :=
  let lines := s.contains '\n'
  if s.any isControl then (if lines then .longBasic else .basic)
  else if !lines && !s.contains '\\' && !s.contains '"' then .basic
  else if !lines && !s.contains '\'' then .literal
  else if !s.contains '\\' && longestRun '"' s ≤ 2 then .longBasic
  else if longestRun '\'' s ≤ 2 then .longLiteral
  else if lines then .longBasic
  else .basic

/-- How a character is written where escapes are read. -/
def escape (c : Char) : List Char :=
  if c = '\x08' then ['\\', 'b']
  else if c = '\t' then ['\\', 't']
  else if c = '\n' then ['\\', 'n']
  else if c = '\x0c' then ['\\', 'f']
  else if c = '\r' then ['\\', 'r']
  else if c = '"' then ['\\', '"']
  else if c = '\\' then ['\\', '\\']
  else if isControl c then '\\' :: 'u' :: fourHex upperHex c.toNat
  else [c]

/-- A text of several lines with escapes.  A third quote in a row is escaped, so that
the text does not end there.  `quotes` is the number of bare quotes just before. -/
def escapeLong (quotes : Nat) : List Char → List Char
  | [] => []
  | c :: rest =>
    if c = '"' then
      if quotes < 2 then c :: escapeLong (quotes + 1) rest else '\\' :: c :: escapeLong 0 rest
    else if c = '\n' then c :: escapeLong 0 rest
    else escape c ++ escapeLong 0 rest

/-- A text as it is written. -/
def quote (s : List Char) : List Char :=
  match style s with
  | .basic => '"' :: s.flatMap escape ++ ['"']
  | .literal => '\'' :: s ++ ['\'']
  | .longBasic => "\"\"\"\n".toList ++ escapeLong 0 s ++ "\"\"\"".toList
  | .longLiteral => "'''\n".toList ++ s ++ "'''".toList

end Toml
end DocPages
