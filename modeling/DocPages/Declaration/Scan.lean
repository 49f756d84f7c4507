/-
The declarations of a source text.

The text is walked once.  A statement's header is gathered until a brace or a
semicolon shows what it was; the bodies of members are passed over whole.  Comments
and attributes that come before a header wait for the declaration it makes.
-/
import DocPages.Declaration.AttributeList
import DocPages.Declaration.Lexeme

namespace DocPages
namespace Declaration

open Text

/-- A brace that is open. -/
inductive Scope where
  | namespaceScope (name : List Char)
  | typeScope (index : Nat) (name : List Char)
deriving Repr

/-- What has been read of the current statement. -/
structure Statement where
  /-- Its text so far, with each run of blanks as one space and literals emptied. -/
  header : List Char := []
  comment : Option (List Char) := none
  /-- A further line comment would continue the one before. -/
  commentOpen : Bool := false
  /-- An attribute section was read, after which a comment belongs to nothing. -/
  attributed : Bool := false
  attributes : List Attribute := []
deriving Repr

structure State where
  declarations : List Declaration := []
  /-- The open scopes, the innermost first. -/
  scopes : List Scope := []
  fileNamespace : Option (List Char) := none
  statement : Statement := {}
  /-- The current line holds more than blanks. -/
  lineUsed : Bool := false
deriving Repr

/-- Why scanning stopped, with the text that was left. -/
inductive Stop where
  | unclosed (u : Unclosed)
  | unbalanced (rest : List Char)
  | openScopes (count : Nat)

/-- The line on which the text that is left starts. -/
def lineOf (source rest : List Char) : Nat :=
  1 + (source.take (source.length - rest.length)).count '\n'

def Stop.fault (source : List Char) : Stop → Fault
  | .unclosed u => .unterminated u.what (lineOf source u.opens)
  | .unbalanced rest => .unbalancedBrace (lineOf source rest)
  | .openScopes count => .unclosedScope count

namespace State

def setHeader (st : State) (header : List Char) : State :=
  { st with statement := { st.statement with header } }

/-- Appends to the header. -/
def write (st : State) (text : List Char) : State :=
  { st.setHeader (st.statement.header ++ text) with lineUsed := true }

def headerBlank (st : State) : Bool := allBlank st.statement.header

def touchLine (st : State) : State := { st with lineUsed := true }

def closeComment (st : State) : State :=
  { st with statement := { st.statement with commentOpen := false } }

def endStatement (st : State) : State := { st with statement := {} }

def openScope (st : State) (scope : Scope) : State := { st with scopes := scope :: st.scopes }

/-- The dotted name of the namespaces around a declaration, the file's own first. -/
def currentNamespace (st : State) : List Char :=
  let inner := st.scopes.reverse.filterMap fun
    | .namespaceScope name => some name
    | .typeScope .. => none
  List.intercalate ['.'] (st.fileNamespace.toList ++ inner)

/-- The type whose body we are directly in. -/
def enclosingType (st : State) : Option (Nat × List Char) :=
  match st.scopes with
  | .typeScope index name :: _ => some (index, name)
  | _ => none

/-- Records a declaration, which takes the waiting comment and attributes. -/
def declare (st : State) (names : List (List Char)) (kind : DeclKind)
    (bases : List (List Char) := []) : State :=
  let declaration : Declaration :=
    { names := names.map String.ofList
      kind := kind
      rawComment := String.ofList (st.statement.comment.getD [])
      attributes := st.statement.attributes
      baseTypes := bases.map String.ofList
      parent := st.enclosingType.map Prod.fst
      inNamespace := String.ofList st.currentNamespace }
  { st with
    declarations := st.declarations ++ [declaration]
    statement := { st.statement with comment := none, attributes := [] } }

def declareNamed (st : State) (kind : DeclKind) : Option (List Char) → State
  | some name => st.declare [name] kind
  | none => st

/-- A documentation comment counts if nothing of the statement but comments has been
read. -/
def acceptsComment (st : State) : Bool := st.headerBlank && !st.statement.attributed

/-- A line of documentation.  Only the first comment of a statement counts, and lines
that follow each other are one comment. -/
def lineComment (st : State) (text : List Char) : State :=
  let st' := st.touchLine
  if st.acceptsComment then
    match st.statement.comment with
    | none => { st' with
        statement := { st.statement with comment := some text, commentOpen := true } }
    | some comment =>
      if st.statement.commentOpen then { st' with
        statement := { st.statement with comment := some (comment ++ '\n' :: text) } }
      else st'
  else st'

/-- A block of documentation, which nothing continues. -/
def blockComment (st : State) (text : List Char) : State :=
  let st' := if st.acceptsComment && st.statement.comment.isNone then
      { st with statement := { st.statement with comment := some text } }
    else st
  st'.closeComment.touchLine

/-- A blank.  A line of blanks only ends a comment. -/
def blank (st : State) (c : Char) : State :=
  let st :=
    if c = '\n' then
      { (if st.lineUsed then st else st.closeComment) with lineUsed := false }
    else st
  let header := st.statement.header
  if header.isEmpty || header.getLast? == some ' ' then st else st.setHeader (header ++ [' '])

/-- A section of attributes. -/
def attributeSection (st : State) (inner : List Char) : State :=
  { st with
    statement := { st.statement with
      attributes := st.statement.attributes ++ readAttributes inner
      attributed := true
      commentOpen := false }
    lineUsed := true }

/-- A statement inside a type that ends with a semicolon.  Events and delegates are
not recorded. -/
def memberStatement (st : State) (header typeName : List Char) : State :=
  if hasWord "event" header || hasWord "delegate" header then st
  else
    let (head, arrow) := (findAssignment header).getD (header, false)
    if head.contains '(' then st.declareNamed .method (methodName head typeName)
    else if arrow then st.declareNamed .property (propertyName head)
    else
      let names := fieldNames header
      if names.isEmpty then st else st.declare names .field

/-- The end of a statement at a semicolon. -/
def semicolon (st : State) : State :=
  let header := trim st.statement.header
  let isDirective := ((words header).head?.any fun word =>
    ["using", "global", "extern"].contains (String.ofList word))
  let st :=
    if header.isEmpty || isDirective then st
    else
      match stripStart? "namespace ".toList header, readTypeHeader header, st.enclosingType with
      | some name, _, _ => { st with fileNamespace := some (trim name) }
      | none, some type, _ => st.declare [type.name] type.kind type.bases
      | none, none, some (_, typeName) => st.memberStatement header typeName
      | none, none, none => st
  st.endStatement

/-- An opening brace, which has been passed.  The brace of an initializer or of an
arrow body is part of its statement; a namespace or a type opens a scope; the body of
anything else is passed over. -/
def openBrace (st : State) (rest : List Char) : Except Unclosed (State × List Char) := do
  let header := trim st.statement.header
  if (findAssignment header).isSome then
    return (st.write "\x7b\x7d ".toList, ← afterBlock rest)
  match stripStart? "namespace ".toList header, readTypeHeader header, st.enclosingType with
  | some name, _, _ => return ((st.openScope (.namespaceScope (trim name))).endStatement, rest)
  | none, some type, _ =>
    let index := st.declarations.length
    let st := st.declare [type.name] type.kind type.bases
    if type.kind.isContainer then
      return ((st.openScope (.typeScope index type.name)).endStatement, rest)
    else return (st.endStatement.touchLine, ← afterBlock rest)
  | none, none, some (_, typeName) =>
    if header.contains '(' then
      let st := st.declareNamed .method (methodName header typeName)
      return (st.endStatement.touchLine, ← afterBlock rest)
    else if header.isEmpty then return (st.endStatement.touchLine, ← afterBlock rest)
    else
      let st := st.declareNamed .property (propertyName header)
      let rest ← afterBlock rest
      return (st.endStatement.touchLine, ← afterInitializer rest)
  | none, none, none => return (st.endStatement.touchLine, ← afterBlock rest)

end State

theorem afterBlock_length {s rest : List Char} (h : afterBlock s = .ok rest) :
    rest.length < s.length := afterBlockFrom_length h

theorem State.openBrace_length {st st' : State} {s rest : List Char}
    (h : st.openBrace s = .ok (st', rest)) : rest.length ≤ s.length := by
  simp only [State.openBrace, bind, Except.bind, pure, Except.pure] at h
  repeat' split at h
  all_goals try cases h
  all_goals first
    | exact Nat.le_refl _
    | exact Nat.le_of_lt (afterBlock_length (by assumption))
    | exact Nat.le_of_lt (Nat.lt_of_le_of_lt (afterInitializer_length (by assumption))
        (afterBlock_length (by assumption)))

/-- What the front of the text comes to: the state after it and the text that is left, or
why scanning stops. -/
def State.next (st : State) (c : Char) (rest : List Char) : Except Stop (State × List Char) :=
  match afterComment? (c :: rest) with
  | some (.error u) => .error (.unclosed u)
  | some (.ok after) =>
    let text := (c :: rest).take (rest.length + 1 - after.length)
    let st :=
      match c :: rest with
      | '/' :: '/' :: '/' :: '/' :: _ => st.touchLine.closeComment
      | '/' :: '/' :: '/' :: _ => st.lineComment text
      | '/' :: '*' :: '*' :: '/' :: _ => st.touchLine.closeComment
      | '/' :: '*' :: '*' :: _ => st.blockComment text
      | _ => st.touchLine.closeComment
    .ok (st, after)
  | none =>
    if c = '#' ∧ st.headerBlank then .ok (st.touchLine, dropLine rest)
    else
      match afterLiteral? (c :: rest) with
      | some (.error u) => .error (.unclosed u)
      | some (.ok after) =>
        .ok (st.write (if c = '\'' then "''".toList else "\"\"".toList), after)
      | none =>
        if c = '[' ∧ st.headerBlank then
          match readSection (c :: rest) rest with
          | .error u => .error (.unclosed u)
          | .ok (inner, after) => .ok (st.attributeSection inner, after)
        else if c = '\x7b' then (st.openBrace rest).mapError .unclosed
        else if c = ';' then .ok (st.semicolon, rest)
        else if c = '\x7d' then
          match st.scopes with
          | [] => .error (.unbalanced rest)
          | _ :: outer => .ok ({ st with scopes := outer }.endStatement.touchLine, rest)
        else if isBlank c then .ok (st.blank c, rest)
        else .ok (st.write [c], rest)

theorem mapError_eq_ok {ε ε' α : Type} {x : Except ε α} {f : ε → ε'} {a : α} :
    x.mapError f = .ok a ↔ x = .ok a := by
  cases x with
  | error e =>
      change Except.error (f e) = Except.ok a ↔ Except.error e = Except.ok a
      constructor <;> rintro ⟨⟩
  | ok b =>
      change Except.ok b = Except.ok a ↔ Except.ok b = Except.ok a
      rw [Except.ok.injEq, Except.ok.injEq]

theorem State.next_length {st st' : State} {c : Char} {rest after : List Char}
    (h : st.next c rest = .ok (st', after)) : after.length ≤ rest.length := by
  unfold State.next at h
  split at h
  · cases h
  · rename_i hc
    cases h
    exact Nat.le_of_lt_succ (afterComment?_length hc)
  · split at h
    · cases h
      exact Nat.le_of_lt_succ (dropLine_length rest)
    · split at h
      · cases h
      · rename_i hl
        cases h
        exact Nat.le_of_lt_succ (afterLiteral?_length hl)
      · split at h
        · split at h
          · cases h
          · rename_i hs
            cases h
            exact readSection_length hs
        · split at h
          · exact State.openBrace_length (mapError_eq_ok.1 h)
          · repeat' split at h
            all_goals
              cases h
              try exact Nat.le_refl _

/-- Walks the text that is left. -/
def scanFrom (st : State) (s : List Char) : Except Stop (List Declaration) :=
  match s with
  | [] => if st.scopes.isEmpty then .ok st.declarations else .error (.openScopes st.scopes.length)
  | c :: rest =>
    match h : st.next c rest with
    | .error stop => .error stop
    | .ok (st, after) =>
      have := State.next_length h
      scanFrom st after
termination_by s.length

theorem scanFrom_cons (st : State) (c : Char) (rest : List Char) :
    scanFrom st (c :: rest) = (st.next c rest).bind fun step => scanFrom step.1 step.2 := by
  rw [scanFrom]
  split
  · rename_i h
    simp only [h, Except.bind]
  · rename_i h
    simp only [h, Except.bind]

/-- The declarations of a source text in the order of their headers, or why it cannot
be scanned. -/
def scan (source : String) : Except Fault (List Declaration) :=
  (scanFrom {} source.toList).mapError (Stop.fault source.toList)

end Declaration
end DocPages
