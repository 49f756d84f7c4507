/-
Numbers, dates and times in TOML.

A configuration has none, but they may stand under names that are passed over, so it
matters only where one ends and whether it is one.
-/
import DocPages.Text.Cut
import DocPages.Text.Digit

namespace DocPages
namespace Toml

open Text

/-! ## Digits -/

/-- What follows further digits.  An underscore may stand between two digits. -/
def afterMoreDigits (isDigit : Char → Bool) : List Char → List Char
  | '_' :: c :: rest => if isDigit c then afterMoreDigits isDigit rest else '_' :: c :: rest
  | c :: rest => if isDigit c then afterMoreDigits isDigit rest else c :: rest
  | [] => []

/-- What follows one or more digits. -/
def afterDigits? (isDigit : Char → Bool) : List Char → Option (List Char)
  | c :: rest => if isDigit c then some (afterMoreDigits isDigit rest) else none
  | [] => none

def dropSign : List Char → List Char
  | '+' :: rest => rest
  | '-' :: rest => rest
  | s => s

/-- What follows a decimal integer, which has no leading zero. -/
def afterDecimal? (s : List Char) : Option (List Char) :=
  match dropSign s with
  | '0' :: rest => some rest
  | digits => afterDigits? Char.isDigit digits

/-- The part of `s` that precedes its end `rest`, without underscores. -/
def digitsBefore (s rest : List Char) : List Char :=
  (s.take (s.length - rest.length)).filter (· != '_')

/-! ## Integers -/

/-- What follows digits of another base whose value fits into 64 bits with a sign. -/
def afterBased? (base : Nat) (s : List Char) : Option (List Char) := do
  let isDigit (c : Char) : Bool := (hexDigit? c).any (decide <| · < base)
  let rest ← afterDigits? isDigit s
  let value ← digitsValue? base hexDigit? (digitsBefore s rest)
  if value < 1 <<< 63 then some rest else none

def afterInteger? : List Char → Option (List Char)
  | '0' :: 'x' :: digits => afterBased? 16 digits
  | '0' :: 'o' :: digits => afterBased? 8 digits
  | '0' :: 'b' :: digits => afterBased? 2 digits
  | s => do
    let rest ← afterDecimal? s
    let value ← digitsValue? 10 decimalDigit? (dropSign (digitsBefore s rest))
    let limit := if s.head? == some '-' then 1 <<< 63 else 1 <<< 63 - 1
    if value ≤ limit then some rest else none

/-! ## Floats -/

def afterFraction? : List Char → Option (List Char)
  | '.' :: rest => afterDigits? Char.isDigit rest
  | _ => none

def afterExponent? : List Char → Option (List Char)
  | 'e' :: rest => afterDigits? Char.isDigit (dropSign rest)
  | 'E' :: rest => afterDigits? Char.isDigit (dropSign rest)
  | _ => none

/-- The least number that is rounded to infinity: half a unit above the largest double. -/
def overflow : Nat := (1 <<< 54 - 1) <<< 970

/-- Is `mantissa` times ten to the `exponent` too large for a double?  Exponents far from
the limit are not multiplied out. -/
def overflows (mantissa : Nat) (exponent : Int) : Bool :=
  let magnitude : Int := (toString mantissa).length + exponent
  if mantissa = 0 then false
  else if magnitude < 308 then false
  else if 310 < magnitude then true
  else if 0 ≤ exponent then decide (overflow ≤ mantissa * Nat.pow 10 exponent.toNat)
  else decide (overflow * Nat.pow 10 (-exponent).toNat ≤ mantissa)

/-- Does a float without its sign, given by its three parts, fit? -/
def fits (whole fraction exponent : List Char) : Bool :=
  let digits := fraction.drop 1
  let exponentDigits := dropSign (exponent.drop 1)
  match digitsValue? 10 decimalDigit? (whole ++ digits),
      digitsValue? 10 decimalDigit? exponentDigits with
  | some mantissa, some size =>
    let power : Int := if (exponent.drop 1).head? == some '-' then -size else size
    !overflows mantissa (power - digits.length)
  | _, _ => false

/-- What follows a float: a decimal with a fraction, an exponent or both.  One that is too
large is none, but one that is too small by its sign is. -/
def afterFloat? (s : List Char) : Option (List Char) := do
  let whole ← afterDecimal? s
  let fraction := (afterFraction? whole).getD whole
  let rest := (afterExponent? fraction).getD fraction
  if rest.length = whole.length then none
  else if s.head? == some '-'
      || fits (dropSign (digitsBefore s whole)) (digitsBefore whole fraction)
        (digitsBefore fraction rest) then some rest
  else none

def afterSpecial? (s : List Char) : Option (List Char) :=
  ["inf".toList, "nan".toList].findSome? (stripStart? · (dropSign s))

/-! ## Dates and times -/

/-- A number of exactly `n` digits in a range, and what follows it. -/
def readFixed? (n low high : Nat) (s : List Char) : Option (Nat × List Char) := do
  let digits := s.take n
  let value ← digitsValue? 10 decimalDigit? digits
  if digits.length = n ∧ low ≤ value ∧ value ≤ high then some (value, s.drop n) else none

def isLeap (year : Nat) : Bool := year % 4 == 0 && (year % 100 != 0 || year % 400 == 0)

def daysIn (year month : Nat) : Nat :=
  if month = 2 then (if isLeap year then 29 else 28)
  else if month = 4 ∨ month = 6 ∨ month = 9 ∨ month = 11 then 30
  else 31

def afterDate? (s : List Char) : Option (List Char) := do
  let (year, s) ← readFixed? 4 0 9999 s
  let s ← stripStart? ['-'] s
  let (month, s) ← readFixed? 2 1 12 s
  let s ← stripStart? ['-'] s
  let (_, s) ← readFixed? 2 1 (daysIn year month) s
  some s

def afterHourMinute? (s : List Char) : Option (List Char) := do
  let (_, s) ← readFixed? 2 0 23 s
  let s ← stripStart? [':'] s
  let (_, s) ← readFixed? 2 0 59 s
  some s

/-- What follows a time of day.  A minute may end with a leap second. -/
def afterTime? (s : List Char) : Option (List Char) := do
  let s ← afterHourMinute? s
  let s ← stripStart? [':'] s
  let (_, s) ← readFixed? 2 0 60 s
  match s with
  | '.' :: c :: rest => some (if c.isDigit then rest.dropWhile Char.isDigit else s)
  | _ => some s

/-- What follows the offset of a time, if there is one. -/
def afterOffset : List Char → List Char
  | 'Z' :: rest => rest
  | 'z' :: rest => rest
  | '+' :: rest => (afterHourMinute? rest).getD ('+' :: rest)
  | '-' :: rest => (afterHourMinute? rest).getD ('-' :: rest)
  | s => s

/-- What follows a date, a time or both. -/
def afterDateTime? (s : List Char) : Option (List Char) :=
  match afterDate? s with
  | none => afterTime? s
  | some rest =>
    match rest with
    | c :: time =>
      if c = 'T' ∨ c = 't' ∨ c = ' ' then
        match afterTime? time with
        | some after => some (afterOffset after)
        | none => some rest
      else some rest
    | [] => some rest

/-- What follows a number, a date or a time. -/
def afterScalar? (s : List Char) : Option (List Char) :=
  ((afterDateTime? s).or (afterFloat? s)).or ((afterSpecial? s).or (afterInteger? s))

end Toml
end DocPages
