/-
The tokens of a JSON text.

Only texts carry a meaning here.  Numbers, truth values and nothing are told apart from
what is no JSON at all, and are kept as they are spelled.
-/
import DocPages.Json.Quoted
import DocPages.Text.Cut

namespace DocPages
namespace Json

open Text

inductive Token where
  | openArray
  | closeArray
  | openObject
  | closeObject
  | comma
  | colon
  | text (content : String)
  /-- A quoted text with half of a pair in it, which stands for no text. -/
  | brokenText (spelling : String)
  | other (spelling : String)
deriving Repr, DecidableEq

def isSpace (c : Char) : Bool := c == ' ' || c == '\n' || c == '\t' || c == '\r'

def mark? : Char → Option Token
  | '[' => some .openArray
  | ']' => some .closeArray
  | '\x7b' => some .openObject
  | '\x7d' => some .closeObject
  | ',' => some .comma
  | ':' => some .colon
  | _ => none

/-! ## Numbers -/

/-- What follows one or more digits. -/
def afterDigits? : List Char → Option (List Char)
  | [] => none
  | c :: rest => if c.isDigit then some (rest.dropWhile Char.isDigit) else none

/-- What follows an integer, which has no leading zero. -/
def afterInteger? : List Char → Option (List Char)
  | '0' :: rest => some rest
  | s => afterDigits? s

def afterFraction? : List Char → Option (List Char)
  | '.' :: rest => afterDigits? rest
  | s => some s

def dropSign : List Char → List Char
  | '+' :: rest => rest
  | '-' :: rest => rest
  | s => s

def afterExponent? : List Char → Option (List Char)
  | 'e' :: rest => afterDigits? (dropSign rest)
  | 'E' :: rest => afterDigits? (dropSign rest)
  | s => some s

def dropMinus : List Char → List Char
  | '-' :: rest => rest
  | s => s

/-- What follows a number. -/
def afterNumber? (s : List Char) : Option (List Char) :=
  ((afterInteger? (dropMinus s)).bind afterFraction?).bind afterExponent?

theorem afterDigits?_length {s rest : List Char} (h : afterDigits? s = some rest) :
    rest.length < s.length := by
  cases s with
  | nil => cases h
  | cons c r =>
    simp only [afterDigits?, Option.ite_none_right_eq_some, Option.some.injEq] at h
    obtain ⟨_, rfl⟩ := h
    have := (List.dropWhile_suffix Char.isDigit (l := r)).length_le
    simp only [List.length_cons]
    omega

theorem afterInteger?_length {s rest : List Char} (h : afterInteger? s = some rest) :
    rest.length < s.length := by
  unfold afterInteger? at h
  split at h
  · cases h
    simp
  · exact afterDigits?_length h

theorem afterFraction?_length {s rest : List Char} (h : afterFraction? s = some rest) :
    rest.length ≤ s.length := by
  unfold afterFraction? at h
  split at h
  · have := afterDigits?_length h
    simp only [List.length_cons]
    omega
  · cases h
    exact Nat.le_refl _

theorem dropSign_length (s : List Char) : (dropSign s).length ≤ s.length := by
  unfold dropSign
  split <;> simp

theorem afterExponent?_length {s rest : List Char} (h : afterExponent? s = some rest) :
    rest.length ≤ s.length := by
  unfold afterExponent? at h
  split at h
  · rename_i r
    have := afterDigits?_length h
    have := dropSign_length r
    simp only [List.length_cons]
    omega
  · rename_i r
    have := afterDigits?_length h
    have := dropSign_length r
    simp only [List.length_cons]
    omega
  · cases h
    exact Nat.le_refl _

theorem afterNumber?_length {s rest : List Char} (h : afterNumber? s = some rest) :
    rest.length < s.length := by
  simp only [afterNumber?, Option.bind_eq_some_iff] at h
  obtain ⟨fraction, ⟨integer, h1, h2⟩, h3⟩ := h
  have hm : (dropMinus s).length ≤ s.length := by
    unfold dropMinus
    split <;> simp
  have := afterInteger?_length h1
  have := afterFraction?_length h2
  have := afterExponent?_length h3
  omega

/-! ## Tokens -/

/-- The part of `s` that precedes its end `rest`. -/
def spelling (s rest : List Char) : String := String.ofList (s.take (s.length - rest.length))

def readText? (s : List Char) : Option (Token × List Char) :=
  (readUnits s).map fun (units, rest) =>
    match characters? units with
    | some content => (.text (String.ofList content), rest)
    | none => (.brokenText (spelling s rest), rest)

/-- The words of JSON. -/
def constants : List (List Char) := ["null".toList, "true".toList, "false".toList]

/-- A token that is not a mark, and what follows it. -/
def readToken? (s : List Char) : Option (Token × List Char) :=
  match s with
  | '"' :: body => readText? body
  | _ =>
    match constants.findSome? (stripStart? · s) with
    | some rest => some (.other (spelling s rest), rest)
    | none => (afterNumber? s).map fun rest => (.other (spelling s rest), rest)

theorem readToken?_length {s rest : List Char} {t : Token} (h : readToken? s = some (t, rest)) :
    rest.length < s.length := by
  unfold readToken? at h
  split at h
  · simp only [readText?, Option.map_eq_some_iff, Prod.exists] at h
    obtain ⟨units, r, hr, h⟩ := h
    have := readUnits_length hr
    have : rest = r := by
      split at h <;> exact (congrArg Prod.snd h).symm
    subst this
    simp only [List.length_cons]
    omega
  · split at h
    · rename_i r hr
      cases h
      obtain ⟨w, hw, hr⟩ := List.exists_of_findSome?_eq_some hr
      rw [stripStart?_eq_some] at hr
      subst hr
      have : 0 < w.length := by
        simp only [constants, List.mem_cons, List.not_mem_nil, or_false] at hw
        rcases hw with rfl | rfl | rfl <;> decide
      simp only [List.length_append]
      omega
    · simp only [Option.map_eq_some_iff, Prod.mk.injEq] at h
      obtain ⟨r, hr, _, rfl⟩ := h
      exact afterNumber?_length hr

/-- The tokens of a text, none if some part of it is no token. -/
def tokens? (s : List Char) : Option (List Token) :=
  match s with
  | [] => some []
  | c :: rest =>
    if isSpace c then tokens? rest
    else
      match mark? c with
      | some t => (tokens? rest).map (t :: ·)
      | none =>
        match h : readToken? (c :: rest) with
        | none => none
        | some (t, after) =>
          have : after.length < rest.length + 1 := readToken?_length h
          (tokens? after).map (t :: ·)
termination_by s.length

/-- A token as it is written. -/
def Token.render : Token → List Char
  | .openArray => ['[']
  | .closeArray => [']']
  | .openObject => ['\x7b']
  | .closeObject => ['\x7d']
  | .comma => [',']
  | .colon => [':']
  | .text content => quote content.toList
  | .brokenText spelling => '"' :: spelling.toList
  | .other spelling => spelling.toList

/-- Tokens written without any space. -/
def renderTokens (tokens : List Token) : String := String.ofList (tokens.flatMap Token.render)

end Json
end DocPages
