/-
Comments and literals, and the stretches of code that are passed over whole.

Every function takes the text that is left and gives the text after what it has
read.  What is not closed is reported with the text at which it opened, so that its
line can be told from the source.
-/
import DocPages.Declaration.Basic
import DocPages.Text.Cut

namespace DocPages
namespace Declaration

open Text

/-- Something that opens at the front of `opens` and is never closed. -/
structure Unclosed where
  what : Enclosed
  opens : List Char
deriving Repr

/-- The rest after reading, if reading succeeds. -/
abbrev Rest := Except Unclosed (List Char)

def restOr (what : Enclosed) (opens : List Char) : Option (List Char) → Rest
  | some rest => .ok rest
  | none => .error ⟨what, opens⟩

/-! ## Comments -/

/-- From the end of the line on, the newline included. -/
def dropLine (s : List Char) : List Char := s.dropWhile (· ≠ '\n')

theorem dropLine_length (s : List Char) : (dropLine s).length < s.length + 1 :=
  Nat.lt_succ_of_le (List.dropWhile_suffix _).length_le

def takeLine (s : List Char) : List Char := s.takeWhile (· ≠ '\n')

/-- The text after a block comment.  Its two opening characters are not part of the
closing mark. -/
def afterBlockComment (s : List Char) : Rest :=
  restOr .blockComment s ((breakOn "*/".toList (s.drop 2)).map Prod.snd)

/-- The text after the comment at the front, if there is one. -/
def afterComment? (s : List Char) : Option Rest :=
  match s with
  | '/' :: '/' :: _ => some (.ok (dropLine s))
  | '/' :: '*' :: _ => some (afterBlockComment s)
  | _ => none

/-! ## Literals -/

def isStringMark (c : Char) : Bool := c == '@' || c == '$'

/-- Does a string literal start here, after at most three marks? -/
def atString (s : List Char) : Bool :=
  decide ((s.takeWhile isStringMark).length ≤ 3) && (s.dropWhile isStringMark).head? == some '"'

/-- The text after the closing quote of a string on one line. -/
def afterPlainString : List Char → Option (List Char)
  | [] => none
  | '"' :: rest => some rest
  | '\n' :: _ => none
  | '\\' :: _ :: rest => afterPlainString rest
  | _ :: rest => afterPlainString rest

/-- The text after the closing quote of a verbatim string, where a doubled quote is
content. -/
def afterVerbatim : List Char → Option (List Char)
  | [] => none
  | '"' :: '"' :: rest => afterVerbatim rest
  | '"' :: rest => some rest
  | _ :: rest => afterVerbatim rest

/-- The text after a string literal.  Three or more quotes are a fence, which the
next run of as many quotes closes. -/
def afterString (s : List Char) : Rest :=
  let marks := s.takeWhile isStringMark
  let body := s.dropWhile isStringMark
  let fence := body.takeWhile (· == '"')
  restOr .stringLiteral s <|
    if 3 ≤ fence.length then (breakOn fence (body.drop fence.length)).map Prod.snd
    else if marks.contains '@' then afterVerbatim (body.drop 1)
    else afterPlainString (body.drop 1)

/-- The text after the closing quote of a character literal. -/
def afterCharBody : List Char → Option (List Char)
  | [] => none
  | '\'' :: rest => some rest
  | '\n' :: _ => none
  | '\\' :: _ :: rest => afterCharBody rest
  | _ :: rest => afterCharBody rest

/-- The text after the literal at the front, if there is one. -/
def afterLiteral? (s : List Char) : Option Rest :=
  if atString s then some (afterString s)
  else
    match s with
    | '\'' :: body => some (restOr .charLiteral s (afterCharBody body))
    | _ => none

/-! ## Each of these shortens the text -/

theorem restOr_ok {what : Enclosed} {opens rest : List Char} {r : Option (List Char)} :
    restOr what opens r = .ok rest ↔ r = some rest := by
  cases r <;> simp [restOr]

theorem afterBlockComment_length {s rest : List Char} (h : afterBlockComment s = .ok rest) :
    rest.length < s.length := by
  simp only [afterBlockComment, restOr_ok, Option.map_eq_some_iff] at h
  obtain ⟨⟨before, after⟩, hb, rfl⟩ := h
  have := congrArg List.length (breakOn_eq hb)
  simp at this ⊢
  omega

theorem afterComment?_length {s rest : List Char} (h : afterComment? s = some (.ok rest)) :
    rest.length < s.length := by
  unfold afterComment? at h
  split at h
  · rename_i t
    simp only [Option.some.injEq, Except.ok.injEq] at h
    subst h
    have : dropLine ('/' :: '/' :: t) = dropLine t := rfl
    rw [this]
    have := (List.dropWhile_suffix (fun c => decide (c ≠ '\n')) (l := t)).length_le
    simp [dropLine] at this ⊢
    omega
  · simp only [Option.some.injEq] at h
    exact afterBlockComment_length h
  · cases h

theorem afterPlainString_length {s rest : List Char} (h : afterPlainString s = some rest) :
    rest.length < s.length := by
  fun_induction afterPlainString s <;> simp_all <;> omega

theorem afterVerbatim_length {s rest : List Char} (h : afterVerbatim s = some rest) :
    rest.length < s.length := by
  fun_induction afterVerbatim s <;> simp_all <;> omega

theorem afterCharBody_length {s rest : List Char} (h : afterCharBody s = some rest) :
    rest.length < s.length := by
  fun_induction afterCharBody s <;> simp_all <;> omega

theorem afterString_length {s rest : List Char} (h : afterString s = .ok rest) :
    rest.length < s.length := by
  have hd := (List.dropWhile_suffix isStringMark (l := s)).length_le
  simp only [afterString, restOr_ok] at h
  split at h
  · rename_i hf
    simp only [Option.map_eq_some_iff] at h
    obtain ⟨⟨before, after⟩, hb, rfl⟩ := h
    have := congrArg List.length (breakOn_eq hb)
    simp at this ⊢
    omega
  · split at h
    · have := afterVerbatim_length h
      simp at this
      omega
    · have := afterPlainString_length h
      simp at this
      omega

theorem afterLiteral?_length {s rest : List Char} (h : afterLiteral? s = some (.ok rest)) :
    rest.length < s.length := by
  unfold afterLiteral? at h
  split at h
  · simp only [Option.some.injEq] at h
    exact afterString_length h
  · split at h
    · simp only [Option.some.injEq, restOr_ok] at h
      have := afterCharBody_length h
      simp
      omega
    · cases h

/-! ## Code that is passed over -/

/-- The text after the brace that closes a body.  `opens` is the text after the
opening brace, and `depth` counts the braces opened since then. -/
def afterBlockFrom (opens : List Char) (depth : Nat) (s : List Char) : Rest :=
  match s with
  | [] => .error ⟨.block, opens⟩
  | c :: rest =>
    match hc : afterComment? (c :: rest) with
    | some (.error e) => .error e
    | some (.ok after) =>
      have : after.length < rest.length + 1 := afterComment?_length hc
      afterBlockFrom opens depth after
    | none =>
      match hl : afterLiteral? (c :: rest) with
      | some (.error e) => .error e
      | some (.ok after) =>
        have : after.length < rest.length + 1 := afterLiteral?_length hl
        afterBlockFrom opens depth after
      | none =>
        if c = '\x7b' then afterBlockFrom opens (depth + 1) rest
        else if c = '\x7d' then
          match depth with
          | 0 => .ok rest
          | depth + 1 => afterBlockFrom opens depth rest
        else afterBlockFrom opens depth rest
termination_by s.length

/-- The text after a body whose opening brace has been passed. -/
def afterBlock (s : List Char) : Rest := afterBlockFrom s 0 s

theorem afterBlockFrom_length {opens s rest : List Char} {depth : Nat}
    (h : afterBlockFrom opens depth s = .ok rest) : rest.length < s.length := by
  fun_induction afterBlockFrom opens depth s <;> simp_all <;> omega

/-- The text after the semicolon of an initializer. -/
def afterInitializerFrom (opens : List Char) (s : List Char) : Rest :=
  match s with
  | [] => .error ⟨.propertyInitializer, opens⟩
  | c :: rest =>
    match hl : afterLiteral? (c :: rest) with
    | some (.error e) => .error e
    | some (.ok after) =>
      have : after.length < rest.length + 1 := afterLiteral?_length hl
      afterInitializerFrom opens after
    | none =>
      if c = ';' then .ok rest
      else if c = '\x7b' then
        match hb : afterBlock rest with
        | .error e => .error e
        | .ok after =>
          have : after.length < rest.length := afterBlockFrom_length hb
          afterInitializerFrom opens after
      else afterInitializerFrom opens rest
termination_by s.length

/-- Is there an assignment at the front, after blanks? -/
def atAssignment (s : List Char) : Bool :=
  match trimStart s with
  | '=' :: '=' :: _ => false
  | '=' :: _ => true
  | _ => false

/-- The text after the initializer of a property, which may have none. -/
def afterInitializer (s : List Char) : Rest :=
  if atAssignment s then afterInitializerFrom s s else .ok s

/-- The text from the bracket on that closes an attribute section.  `depth` counts
the brackets opened inside. -/
def toSectionEnd (opens : List Char) (depth : Nat) (s : List Char) : Rest :=
  match s with
  | [] => .error ⟨.attributeSection, opens⟩
  | c :: rest =>
    match hl : afterLiteral? (c :: rest) with
    | some (.error e) => .error e
    | some (.ok after) =>
      have : after.length < rest.length + 1 := afterLiteral?_length hl
      toSectionEnd opens depth after
    | none =>
      if c = '[' then toSectionEnd opens (depth + 1) rest
      else if c = ']' then
        match depth with
        | 0 => .ok s
        | depth + 1 => toSectionEnd opens depth rest
      else toSectionEnd opens depth rest
termination_by s.length

/-- The inside of an attribute section whose opening bracket has been passed, and the
text after its closing bracket. -/
def readSection (opens s : List Char) : Except Unclosed (List Char × List Char) := do
  let closing ← toSectionEnd opens 0 s
  return (s.take (s.length - closing.length), closing.drop 1)

theorem afterInitializerFrom_length {opens s rest : List Char}
    (h : afterInitializerFrom opens s = .ok rest) : rest.length ≤ s.length := by
  fun_induction afterInitializerFrom opens s <;> simp_all <;> omega

theorem afterInitializer_length {s rest : List Char} (h : afterInitializer s = .ok rest) :
    rest.length ≤ s.length := by
  unfold afterInitializer at h
  split at h
  · exact afterInitializerFrom_length h
  · cases h
    exact Nat.le_refl _

theorem toSectionEnd_length {opens s rest : List Char} {depth : Nat}
    (h : toSectionEnd opens depth s = .ok rest) : rest.length ≤ s.length := by
  fun_induction toSectionEnd opens depth s <;> simp_all <;> omega

theorem readSection_length {opens s inner rest : List Char}
    (h : readSection opens s = .ok (inner, rest)) : rest.length ≤ s.length := by
  simp only [readSection, bind, Except.bind, pure, Except.pure] at h
  split at h
  · cases h
  · rename_i closing hc
    have := toSectionEnd_length hc
    cases h
    simp
    omega

end Declaration
end DocPages
