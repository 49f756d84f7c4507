/-
Quoted text in JSON.

An escape of four hexadecimal digits stands for a unit of sixteen bits, and two of them
in a row may stand for one character.  Half of such a pair alone stands for nothing.
-/
import DocPages.Text.Digit

namespace DocPages
namespace Json

open Text

/-- The character that a backslash and this letter stand for. -/
def escaped? : Char → Option Char
  | '"' => some '"'
  | '\\' => some '\\'
  | '/' => some '/'
  | 'b' => some '\x08'
  | 'f' => some '\x0c'
  | 'n' => some '\n'
  | 'r' => some '\r'
  | 't' => some '\t'
  | _ => none

/-- The units of a quoted text whose opening quote has been passed, and what follows its
closing quote. -/
def readUnits : List Char → Option (List Nat × List Char)
  | [] => none
  | '"' :: rest => some ([], rest)
  | '\\' :: 'u' :: a :: b :: c :: d :: rest => do
    let unit ← digitsValue? 16 hexDigit? [a, b, c, d]
    let (units, after) ← readUnits rest
    some (unit :: units, after)
  | '\\' :: letter :: rest => do
    let c ← escaped? letter
    let (units, after) ← readUnits rest
    some (c.toNat :: units, after)
  | c :: rest =>
    if c = '\\' ∨ c.toNat < 0x20 then none
    else do
      let (units, after) ← readUnits rest
      some (c.toNat :: units, after)

theorem readUnits_length {s rest : List Char} {units : List Nat}
    (h : readUnits s = some (units, rest)) : rest.length < s.length := by
  fun_induction readUnits s generalizing units rest with
  | case1 => cases h
  | case2 r =>
    simp only [Option.some.injEq, Prod.mk.injEq] at h
    simp [h.2]
  | case3 a b c d r ih =>
    simp only [Option.bind_eq_bind, Option.bind_eq_some_iff] at h
    obtain ⟨_, _, ⟨_, _⟩, hr, h⟩ := h
    simp only [Option.some.injEq, Prod.mk.injEq] at h
    obtain ⟨_, rfl⟩ := h
    have := ih hr
    simp only [List.length_cons]
    omega
  | case4 letter r _ ih =>
    simp only [Option.bind_eq_bind, Option.bind_eq_some_iff] at h
    obtain ⟨_, _, ⟨_, _⟩, hr, h⟩ := h
    simp only [Option.some.injEq, Prod.mk.injEq] at h
    obtain ⟨_, rfl⟩ := h
    have := ih hr
    simp only [List.length_cons]
    omega
  | case5 => cases h
  | case6 c r _ _ _ _ ih =>
    simp only [Option.bind_eq_bind, Option.bind_eq_some_iff] at h
    obtain ⟨⟨_, _⟩, hr, h⟩ := h
    simp only [Option.some.injEq, Prod.mk.injEq] at h
    obtain ⟨_, rfl⟩ := h
    have := ih hr
    simp only [List.length_cons]
    omega

def isFirstHalf (unit : Nat) : Bool := decide (0xd800 ≤ unit ∧ unit < 0xdc00)

def isSecondHalf (unit : Nat) : Bool := decide (0xdc00 ≤ unit ∧ unit < 0xe000)

def joinHalves (first second : Nat) : Nat := 0x10000 + (first - 0xd800) * 0x400 + (second - 0xdc00)

/-- The characters of units, none if a half stands alone. -/
def characters? : List Nat → Option (List Char)
  | [] => some []
  | [unit] => (charOfCode? unit).map ([·])
  | first :: second :: rest =>
    if isFirstHalf first && isSecondHalf second then do
      let c ← charOfCode? (joinHalves first second)
      (characters? rest).map (c :: ·)
    else do
      let c ← charOfCode? first
      (characters? (second :: rest)).map (c :: ·)

/-- How a character is written between quotes. -/
def quoteChar (c : Char) : List Char :=
  if c = '"' then ['\\', '"']
  else if c = '\\' then ['\\', '\\']
  else if c = '\x08' then ['\\', 'b']
  else if c = '\x0c' then ['\\', 'f']
  else if c = '\n' then ['\\', 'n']
  else if c = '\r' then ['\\', 'r']
  else if c = '\t' then ['\\', 't']
  else if c.toNat < 0x20 then '\\' :: 'u' :: fourHex lowerHex c.toNat
  else [c]

def quote (s : List Char) : List Char := '"' :: s.flatMap quoteChar ++ ['"']

end Json
end DocPages
