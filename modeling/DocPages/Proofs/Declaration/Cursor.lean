/-
The scanner with a cursor: a byte position and a count of lines, moved apart.

A text that is left has no position.  Here the same scanner is written down with one, so that it
can be said where reading stands: text is sliced at byte positions, which may fail, and a loop that
goes on without having moved is an outcome of its own.  Every cursor on the way is kept.
-/
import DocPages.Proofs.Declaration.Bodies

namespace DocPages
namespace Declaration

open Text

/-! ## Slices -/

/-- The text from a byte on, unless this byte is inside of a character or behind the end. -/
def sliceFrom? : List Char → Nat → Option (List Char)
  | s, 0 => some s
  | [], _ + 1 => none
  | c :: s, n + 1 => if n + 1 < c.utf8Size then none else sliceFrom? s (n + 1 - c.utf8Size)

/-- The text up to a byte, under the same condition. -/
def sliceTo? : List Char → Nat → Option (List Char)
  | _, 0 => some []
  | [], _ + 1 => none
  | c :: s, n + 1 =>
    if n + 1 < c.utf8Size then none else (sliceTo? s (n + 1 - c.utf8Size)).map (c :: ·)

/-- The byte at which a mark first occurs. -/
def find? (mark s : List Char) : Option Nat := (breakOn mark s).map fun cut => byteLength cut.1

/-! ## Reading -/

/-- Where reading stands. -/
structure Cursor where
  pos : Nat := 0
  line : Nat := 1
deriving DecidableEq, Repr

/-- The cursor, and what it was before, the latest first. -/
structure Track where
  now : Cursor := {}
  past : List Cursor := []
deriving Repr

/-- Why reading ends early. -/
inductive Halt where
  | fault (f : Fault)
  /-- A slice would begin or end inside of a character or behind the end. -/
  | slice
  /-- A loop would go on from where it was, or from behind the end. -/
  | stuck
deriving Repr

abbrev Reading := EStateM Halt Track

namespace Reading

/-- A loop goes on, or it is left. -/
inductive Turn (σ α : Type) where
  | again (s : σ)
  | leave (a : α)

def here : Reading Cursor := return (← get).now

def moveTo (k : Cursor) : Reading Unit := modify fun t => ⟨k, t.now :: t.past⟩

def slice {α : Type} : Option α → Reading α
  | some a => pure a
  | none => throw .slice

def unterminated {α : Type} (what : Enclosed) (line : Nat) : Reading α :=
  throw (.fault (.unterminated what line))

section Source

variable (source : List Char)

def loop {σ α : Type} (turn : σ → Reading (Turn σ α)) (s : σ) : Reading α := fun t =>
  match turn s t with
  | .error e t' => .error e t'
  | .ok (.leave a) t' => .ok a t'
  | .ok (.again s) t' =>
    if t.now.pos < t'.now.pos ∧ t'.now.pos ≤ byteLength source then loop turn s t'
    else .error .stuck t'
termination_by t => byteLength source - t.now.pos

/-- The text that is left. -/
def rest : Reading (List Char) := do slice (sliceFrom? source (← here).pos)

def peek : Reading (Option Char) := return (← rest source).head?

def bump : Reading (Option Char) := do
  match ← peek source with
  | none => return none
  | some c =>
    let k ← here
    moveTo ⟨k.pos + c.utf8Size, if c = '\n' then k.line + 1 else k.line⟩
    return some c

/-- Skips one character. -/
def skip {σ α : Type} (next : Turn σ α) : Reading (Turn σ α) := do
  let _ ← bump source
  return next

/-- The text from a position up to the cursor. -/
def since (start : Nat) : Reading (List Char) := do
  let k ← here
  slice <|
    if start ≤ k.pos then (sliceFrom? source start).bind fun s => sliceTo? s (k.pos - start)
    else none

/-- Skips the characters in front of a position. -/
def bumpTo (stop : Nat) : Reading Unit :=
  loop source (fun _ => do
    if (← here).pos < stop then skip source (.again ()) else return .leave ()) ()

/-! ## Comments and literals -/

/-- The text up to the end of the line, in which there is no newline to count. -/
def takeLine : Reading (List Char) := do
  let s ← rest source
  let stop := (find? ['\n'] s).getD (byteLength s)
  let k ← here
  moveTo ⟨k.pos + stop, k.line⟩
  slice (sliceTo? s stop)

def blockComment : Reading (List Char) := do
  let k ← here
  let body ← slice (sliceFrom? (← rest source) 2)
  match find? "*/".toList body with
  | none => unterminated .blockComment k.line
  | some stop =>
    bumpTo source (k.pos + 2 + stop + 2)
    since source k.pos

/-- Does a string literal start with this character? -/
def stringStarts (c : Char) (s : List Char) : Reading Bool := do
  if c = '"' ∨ isStringMark c then
    let marks := (s.takeWhile isStringMark).length
    if marks ≤ 3 then return (← slice (sliceFrom? s marks)).head? == some '"'
    else return false
  else return false

/-- The marks in front of a string, one of which makes it verbatim. -/
def marksTurn (verbatim : Bool) : Reading (Turn Bool Bool) := do
  match ← peek source with
  | none => return .leave verbatim
  | some c =>
    if isStringMark c then skip source (.again (verbatim || c == '@'))
    else return .leave verbatim

/-- The content of a literal on one line, and the quote behind it. -/
def quotedTurn (quote : Char) (what : Enclosed) (line : Nat) : Reading (Turn Unit Unit) := do
  match ← bump source with
  | none => unterminated what line
  | some c =>
    if c = quote then return .leave ()
    else if c = '\\' then skip source (.again ())
    else if c = '\n' then unterminated what line
    else return .again ()

/-- The content of a verbatim string, and the quote behind it. -/
def verbatimTurn (line : Nat) : Reading (Turn Unit Unit) := do
  match ← bump source with
  | none => unterminated .stringLiteral line
  | some c =>
    if c ≠ '"' then return .again ()
    else if (← peek source) = some '"' then skip source (.again ())
    else return .leave ()

/-- The rest of a string that began at `k`, between two fences of so many quotes. -/
def fencedString (k : Cursor) (quotes : Nat) : Reading (List Char) := do
  let k' ← here
  moveTo ⟨k'.pos + quotes, k'.line⟩
  match find? (List.replicate quotes '"') (← rest source) with
  | none => unterminated .stringLiteral k.line
  | some stop =>
    bumpTo source (k'.pos + quotes + stop + quotes)
    since source k.pos

def stringLiteral : Reading (List Char) := do
  let k ← here
  let verbatim ← loop source (marksTurn source) false
  let quotes := ((← rest source).takeWhile (· == '"')).length
  if 3 ≤ quotes then fencedString source k quotes
  else
    let _ ← bump source
    if verbatim then loop source (fun _ => verbatimTurn source k.line) ()
    else loop source (fun _ => quotedTurn source '"' .stringLiteral k.line) ()
    since source k.pos

def charLiteral : Reading Unit := do
  let k ← here
  let _ ← bump source
  loop source (fun _ => quotedTurn source '\'' .charLiteral k.line) ()

/-! ## Code that is passed over -/

/-- Reads the comment at the front, if there is one. -/
def comment : Reading (Option (List Char)) := do
  let s ← rest source
  if startsWith "//".toList s then return some (← takeLine source)
  else if startsWith "/*".toList s then return some (← blockComment source)
  else return none

/-- Passes over the literal at the front, if there is one. -/
def literal (c : Char) : Reading Bool := do
  if ← stringStarts c (← rest source) then
    let _ ← stringLiteral source
    return true
  else if c = '\'' then
    charLiteral source
    return true
  else return false

def blockTurn (line depth : Nat) : Reading (Turn Nat Unit) := do
  match ← peek source with
  | none => unterminated .block line
  | some c =>
    if (← comment source).isSome then return .again depth
    else if ← literal source c then return .again depth
    else if c = '\x7b' then skip source (.again (depth + 1))
    else if c = '\x7d' then
      match depth with
      | 0 => skip source (.leave ())
      | depth + 1 => skip source (.again depth)
    else skip source (.again depth)

def skipBlock : Reading Unit := do
  let k ← here
  loop source (blockTurn source k.line) 0

def initializerTurn (line : Nat) : Reading (Turn Unit Unit) := do
  match ← peek source with
  | none => unterminated .propertyInitializer line
  | some c =>
    if ← literal source c then return .again ()
    else if c = '\x7b' then
      let _ ← bump source
      skipBlock source
      return .again ()
    else if c = ';' then skip source (.leave ())
    else skip source (.again ())

def skipInitializer : Reading Unit := do
  if atAssignment (← rest source) then
    let k ← here
    loop source (fun _ => initializerTurn source k.line) ()
  else return ()

def sectionTurn (line depth : Nat) : Reading (Turn Nat Unit) := do
  match ← peek source with
  | none => unterminated .attributeSection line
  | some c =>
    if ← literal source c then return .again depth
    else if c = '[' then skip source (.again (depth + 1))
    else if c = ']' then
      match depth with
      | 0 => return .leave ()
      | depth + 1 => skip source (.again depth)
    else skip source (.again depth)

/-- The inside of an attribute section. -/
def attributeSection : Reading (List Char) := do
  let k ← here
  let _ ← bump source
  let start ← here
  loop source (sectionTurn source k.line) 0
  let inner ← since source start.pos
  let _ ← bump source
  return inner

/-! ## The scan -/

/-- Passes over what an opening brace opens, unless it is a scope. -/
def pass (opening : Opening) : Reading Unit := do
  match opening with
  | .scope => return ()
  | .body => skipBlock source
  | .property =>
    skipBlock source
    skipInitializer source

/-- A character that starts neither a comment nor a literal. -/
def codeTurn (st : State) (c : Char) : Reading (Turn State (List Declaration)) := do
  if c = '[' ∧ st.headerBlank then
    return .again (st.attributeSection (← attributeSection source))
  else if c = '\x7b' then
    let _ ← bump source
    pass source st.opening
    return .again st.braced
  else if c = ';' then skip source (.again st.semicolon)
  else if c = '\x7d' then
    let _ ← bump source
    match st.scopes with
    | [] => throw (.fault (.unbalancedBrace (← here).line))
    | _ :: outer => return .again { st with scopes := outer }.endStatement.touchLine
  else if isBlank c then skip source (.again (st.blank c))
  else skip source (.again (st.write [c]))

def stateTurn (st : State) : Reading (Turn State (List Declaration)) := do
  match ← peek source with
  | none =>
    if st.scopes.isEmpty then return .leave st.declarations
    else throw (.fault (.unclosedScope st.scopes.length))
  | some c =>
    let s ← rest source
    match ← comment source with
    | some text => return .again (st.readComment s text)
    | none =>
      if c = '#' ∧ st.headerBlank then
        let _ ← takeLine source
        return .again st.touchLine
      else if ← literal source c then
        return .again (st.write (if c = '\'' then "''".toList else "\"\"".toList))
      else codeTurn source st c

def run : Reading (List Declaration) := loop source (stateTurn source) {}

end Source

end Reading

end Declaration
end DocPages
