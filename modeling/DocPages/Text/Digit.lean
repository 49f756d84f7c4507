/-
Digits, and the characters that code points stand for.
-/
namespace DocPages
namespace Text

def decimalDigit? (c : Char) : Option Nat :=
  if c.isDigit then some (c.toNat - '0'.toNat) else none

def hexDigit? (c : Char) : Option Nat :=
  if c.isDigit then some (c.toNat - '0'.toNat)
  else if 'a' ≤ c ∧ c ≤ 'f' then some (c.toNat - 'a'.toNat + 10)
  else if 'A' ≤ c ∧ c ≤ 'F' then some (c.toNat - 'A'.toNat + 10)
  else none

/-- The value of a run of digits. -/
def digitsValue? (base : Nat) (digitOf : Char → Option Nat) (s : List Char) : Option Nat :=
  s.foldlM (fun n c => (digitOf c).map (n * base + ·)) 0

/-- The value of a numeral, which may start with a plus sign. -/
def numeral? (base : Nat) (digitOf : Char → Option Nat) (s : List Char) : Option Nat :=
  let digits := match s with
    | '+' :: rest => rest
    | _ => s
  if digits.isEmpty then none else digitsValue? base digitOf digits

/-- The character of a code point, if it is one. -/
def charOfCode? (n : Nat) : Option Char :=
  if n.isValidChar then some (Char.ofNat n) else none

/-- A code point below 65536 in four hexadecimal digits. -/
def fourHex (digits : List Char) (n : Nat) : List Char :=
  [n / 4096 % 16, n / 256 % 16, n / 16 % 16, n % 16].map fun d => digits.getD d '0'

def lowerHex : List Char := "0123456789abcdef".toList

def upperHex : List Char := "0123456789ABCDEF".toList

end Text
end DocPages
