/-
What a step of a scan does to the state, apart from what it reads.

How far a step reads depends on the header and the open scopes alone, and then it acts:
`State.next_act`.  What an act changes is said here once.
-/
import DocPages.Proofs.Declaration.Bodies

namespace DocPages
namespace Declaration

open Text

inductive Act where
  /-- A comment, which is the front of `s`. -/
  | comment (s text : List Char)
  /-- A line that starts with a number sign. -/
  | directive
  | write (text : List Char)
  | attributes (inner : List Char)
  | openBrace
  | semicolon
  | closeBrace
  | blank (c : Char)

namespace Act

def run (act : Act) (st : State) : State :=
  match act with
  | .comment s text => st.readComment s text
  | .directive => st.touchLine
  | .write text => st.write text
  | .attributes inner => st.attributeSection inner
  | .openBrace => st.braced
  | .semicolon => st.semicolon
  | .closeBrace => { st with scopes := st.scopes.tail }.endStatement.touchLine
  | .blank c => st.blank c

/-- A section of attributes is read only in front of a header, and no blanks are written. -/
def Fits (act : Act) (st : State) : Prop :=
  match act with
  | .attributes _ => st.headerBlank = true
  | .write text => allBlank text = false
  | _ => True

/-- The acts after which the statement is over.  The brace of an initializer is part of it. -/
def Ends (act : Act) (st : State) : Prop :=
  match act with
  | .semicolon | .closeBrace => True
  | .openBrace => findAssignment (trim st.statement.header) = none
  | _ => False

end Act

namespace State

/-- The characters that end a statement. -/
def EndsAt (st : State) (c : Char) : Prop :=
  c = ';' ∨ c = '\x7d' ∨ c = '\x7b' ∧ findAssignment (trim st.statement.header) = none

/-- What tells how far a step reads. -/
structure Alike (st other : State) : Prop where
  header : other.statement.header = st.statement.header
  scopes : other.scopes = st.scopes

theorem Alike.headerBlank {st other : State} (h : st.Alike other) :
    other.headerBlank = st.headerBlank := by
  rw [State.headerBlank, h.header, ← State.headerBlank]

theorem Alike.fits {st other : State} (h : st.Alike other) (act : Act) :
    act.Fits other ↔ act.Fits st := by
  cases act <;> simp only [Act.Fits, h.headerBlank]

theorem Alike.ends {st other : State} (h : st.Alike other) (act : Act) :
    act.Ends other ↔ act.Ends st := by
  cases act <;> simp only [Act.Ends, h.header]

theorem Alike.enclosingType {st other : State} (h : st.Alike other) :
    other.enclosingType = st.enclosingType := by
  rw [State.enclosingType, h.scopes, ← State.enclosingType]

theorem Alike.opening {st other : State} (h : st.Alike other) : other.opening = st.opening := by
  unfold State.opening
  rw [h.header, h.enclosingType]

theorem EndsAt.code {st : State} {c : Char} (h : st.EndsAt c) (rest : List Char) :
    afterComment? (c :: rest) = none ∧ c ≠ '#' ∧ afterLiteral? (c :: rest) = none := by
  rcases h with rfl | rfl | ⟨rfl, -⟩
  all_goals
    exact ⟨afterComment?_of_ne (by decide) _, by decide,
      afterLiteral?_of_plain (by decide) (by decide) rfl _⟩

/-- A character that starts neither a comment nor a literal. -/
theorem CodeStep.act {st st' : State} {c : Char} {rest after : List Char}
    (h : st.CodeStep c rest st' after) :
    ∃ act : Act, st' = act.run st ∧ act.Fits st ∧ (act.Ends st ↔ st.EndsAt c) ∧
      ∀ other, st.Alike other → other.CodeStep c rest (act.run other) after := by
  cases h with
  | @attributes _ inner _ hblank hsection =>
      exact ⟨.attributes inner, rfl, hblank, by simp [Act.Ends, EndsAt],
        fun _ hsame => .attributes (hsame.headerBlank.trans hblank) hsection⟩
  | openBrace hpass =>
      exact ⟨.openBrace, rfl, trivial, by simp [Act.Ends, EndsAt],
        fun _ hsame => .openBrace (hsame.opening ▸ hpass)⟩
  | semicolon =>
      exact ⟨.semicolon, rfl, trivial, by simp [Act.Ends, EndsAt], fun _ _ => .semicolon⟩
  | closeBrace hscopes =>
      refine ⟨.closeBrace, ?_, trivial, by simp [Act.Ends, EndsAt], fun other hsame => ?_⟩
      · rw [Act.run, hscopes, List.tail_cons]
      · rw [Act.run, hsame.scopes, hscopes, List.tail_cons]
        exact .closeBrace (hsame.scopes.trans hscopes)
  | blank hblank =>
      have hends : ¬st.EndsAt c := by
        rintro (rfl | rfl | ⟨rfl, -⟩) <;> exact absurd hblank (by decide)
      exact ⟨.blank c, rfl, trivial, by simp [Act.Ends, hends], fun _ _ => .blank hblank⟩
  | write hblank hsign hopen =>
      have hends : ¬st.EndsAt c := by
        rintro (rfl | rfl | ⟨rfl, -⟩) <;> exact hsign (by decide)
      exact ⟨.write [c], rfl, by simp [Act.Fits, allBlank, hblank], by simp [Act.Ends, hends],
        fun _ hsame => .write hblank hsign fun hc => hsame.headerBlank.trans (hopen hc)⟩

/-- What a step reads and how it acts depends on nothing else. -/
theorem next_act {st st' : State} {c : Char} {rest after : List Char}
    (h : st.next c rest = .ok (st', after)) :
    ∃ act : Act, st' = act.run st ∧ act.Fits st ∧ (act.Ends st ↔ st.EndsAt c) ∧
      ∀ other, st.Alike other → other.next c rest = .ok (act.run other, after) := by
  simp only [next_eq_ok_iff]
  cases next_eq_ok_iff.1 h with
  | comment hcomment =>
      have hends : ¬st.EndsAt c := fun hends => by
        rw [(hends.code rest).1] at hcomment
        cases hcomment
      exact ⟨.comment _ _, rfl, trivial, by simp [Act.Ends, hends], fun _ _ => .comment hcomment⟩
  | directive hc hblank =>
      have hends : ¬st.EndsAt c := fun hends => (hends.code rest).2.1 hc
      exact ⟨.directive, rfl, trivial, by simp [Act.Ends, hends],
        fun _ hsame => .directive hc (hsame.headerBlank.trans hblank)⟩
  | literal hliteral =>
      have hends : ¬st.EndsAt c := fun hends => by
        rw [(hends.code rest).2.2] at hliteral
        cases hliteral
      have hfits : allBlank (if c = '\'' then "''".toList else "\"\"".toList) = false := by
        split <;> decide
      exact ⟨.write _, rfl, hfits, by simp [Act.Ends, hends], fun _ _ => .literal hliteral⟩
  | code hcomment hash hliteral hstep =>
      obtain ⟨act, hrun, hfits, hends, hother⟩ := hstep.act
      exact ⟨act, hrun, hfits, hends, fun other hsame => .code hcomment
        (hsame.headerBlank ▸ hash) hliteral (hother other hsame)⟩

/-- A step that fails does so whatever else the state holds. -/
theorem next_error {st other : State} (h : st.Alike other) {c : Char} {rest : List Char}
    {stop : Stop} (hnext : st.next c rest = .error stop) : other.next c rest = .error stop := by
  rw [next_eq_error_iff] at hnext ⊢
  cases hnext with
  | comment hcomment => exact .comment hcomment
  | literal hliteral => exact .literal hliteral
  | attributes hblank hsection => exact .attributes (h.headerBlank.trans hblank) hsection
  | passed hpass => exact .passed (h.opening ▸ hpass)
  | unbalanced hscopes => exact .unbalanced (h.scopes.trans hscopes)

end State

/-! ## What an end declares -/

namespace State

def onto (st : State) (ds : List Declaration) : State := { st with declarations := ds }

/-- The declaration that the header makes here, with what waits for it. -/
def made (st : State) (names : List (List Char)) (kind : DeclKind) (bases : List (List Char)) :
    Declaration :=
  { names := names.map String.ofList
    kind := kind
    rawComment := String.ofList (st.statement.comment.getD [])
    attributes := st.statement.attributes
    baseTypes := bases.map String.ofList
    parent := st.enclosingType.map Prod.fst
    inNamespace := String.ofList st.currentNamespace }

/-- Another state in which a statement ends the same, but for what waits for its declaration
and for the declarations so far. -/
structure EndsAlike (st other : State) : Prop extends Alike st other where
  fileNamespace : other.fileNamespace = st.fileNamespace
  count : other.declarations.length = st.declarations.length

/-- What the two states come to differs in the declarations before and in what waited, and
whether the line is used if that differed before. -/
inductive EndsIn (st other : State) : State → State → Prop
  | nothing {last : State} {used : Bool} (h : last.declarations = st.declarations)
      (hused : other.lineUsed = st.lineUsed → used = last.lineUsed) :
      EndsIn st other last { last.onto other.declarations with lineUsed := used }
  | declared {last : State} {used : Bool} (names : List (List Char)) (kind : DeclKind)
      (bases : List (List Char))
      (h : last.declarations = st.declarations ++ [st.made names kind bases])
      (hused : other.lineUsed = st.lineUsed → used = last.lineUsed) :
      EndsIn st other last
        { last.onto (other.declarations ++ [other.made names kind bases]) with lineUsed := used }

namespace EndsIn

variable {st other a b : State}

theorem touchLine (h : EndsIn st other a b) : EndsIn st other a.touchLine b.touchLine := by
  cases h with
  | nothing h => exact @nothing st other a.touchLine true h fun _ => rfl
  | declared names kind bases h =>
      exact @declared st other a.touchLine true names kind bases h fun _ => rfl

theorem openScope (h : EndsIn st other a b) (scope : Scope) :
    EndsIn st other (a.openScope scope) (b.openScope scope) := by
  cases h with
  | nothing h hused => exact @nothing st other (a.openScope scope) _ h hused
  | declared names kind bases h hused =>
      exact @declared st other (a.openScope scope) _ names kind bases h hused

end EndsIn

namespace EndsAlike

variable {st other : State} (h : st.EndsAlike other)
include h

theorem endStatement : EndsIn st other st.endStatement other.endStatement := by
  have heq : other.endStatement =
      { st.endStatement.onto other.declarations with lineUsed := other.lineUsed } := by
    simp only [State.endStatement, onto, ← h.fileNamespace, ← h.scopes]
  rw [heq]
  exact .nothing rfl id

theorem declare (names : List (List Char)) (kind : DeclKind) (bases : List (List Char)) :
    EndsIn st other (st.declare names kind bases).endStatement
      (other.declare names kind bases).endStatement := by
  have heq : (other.declare names kind bases).endStatement =
      { (st.declare names kind bases).endStatement.onto
          (other.declarations ++ [other.made names kind bases]) with
        lineUsed := other.lineUsed } := by
    simp only [State.endStatement, State.declare, onto, made, ← h.fileNamespace, ← h.scopes]
  rw [heq]
  exact .declared names kind bases rfl id

theorem declareNamed (kind : DeclKind) (name : Option (List Char)) :
    EndsIn st other (st.declareNamed kind name).endStatement
      (other.declareNamed kind name).endStatement := by
  cases name with
  | none => exact h.endStatement
  | some name => exact h.declare [name] kind []

theorem memberStatement (header typeName : List Char) :
    EndsIn st other (st.memberStatement header typeName).endStatement
      (other.memberStatement header typeName).endStatement := by
  unfold State.memberStatement
  simp only
  split
  · exact h.endStatement
  · split
    · exact h.declareNamed .method _
    · split
      · exact h.declareNamed .property _
      · split
        · exact h.endStatement
        · exact h.declare _ .field []

theorem semicolon : EndsIn st other st.semicolon other.semicolon := by
  unfold State.semicolon
  rw [h.header, h.enclosingType]
  dsimp only
  split
  · exact h.endStatement
  · cases stripStart? "namespace ".toList (trim st.statement.header) with
    | some name =>
        have heq : ({ other with fileNamespace := some (trim name) } : State).endStatement =
            { ({ st with fileNamespace := some (trim name) } : State).endStatement.onto
                other.declarations with lineUsed := other.lineUsed } := by
          simp only [State.endStatement, onto, ← h.scopes]
        dsimp only
        rw [heq]
        exact .nothing rfl id
    | none =>
        cases readTypeHeader (trim st.statement.header) with
        | some type => exact h.declare [type.name] type.kind type.bases
        | none =>
            cases st.enclosingType with
            | none => exact h.endStatement
            | some owner => exact h.memberStatement _ owner.2

theorem braced (hend : findAssignment (trim st.statement.header) = none) :
    EndsIn st other st.braced other.braced := by
  unfold State.braced
  rw [h.header, h.enclosingType]
  simp only [hend, Option.isSome_none, Bool.false_eq_true, if_false]
  cases stripStart? "namespace ".toList (trim st.statement.header) with
  | some name => exact h.endStatement.openScope _
  | none =>
      cases readTypeHeader (trim st.statement.header) with
      | some type =>
          dsimp only
          cases type.kind.isContainer with
          | true =>
              rw [h.count]
              exact (h.declare [type.name] type.kind type.bases).openScope _
          | false => exact (h.declare [type.name] type.kind type.bases).touchLine
      | none =>
          cases st.enclosingType with
          | none => exact h.endStatement.touchLine
          | some owner =>
              dsimp only
              cases (trim st.statement.header).contains '(' with
              | true => exact (h.declareNamed .method _).touchLine
              | false =>
                  cases (trim st.statement.header).isEmpty with
                  | true => exact h.endStatement.touchLine
                  | false => exact (h.declareNamed .property _).touchLine

theorem closeBrace : EndsIn st other (Act.closeBrace.run st) (Act.closeBrace.run other) := by
  have heq : Act.closeBrace.run other =
      { (Act.closeBrace.run st).onto other.declarations with lineUsed := true } := by
    simp only [Act.run, State.endStatement, State.touchLine, onto, ← h.fileNamespace, h.scopes]
  rw [heq]
  exact .nothing rfl fun _ => rfl

end EndsAlike

end State

theorem Act.run_ends {act : Act} {st other : State} (hends : act.Ends st)
    (h : st.EndsAlike other) : State.EndsIn st other (act.run st) (act.run other) := by
  cases act with
  | openBrace => exact h.braced hends
  | semicolon => exact h.semicolon
  | closeBrace => exact h.closeBrace
  | comment | directive | write | attributes | blank => exact hends.elim

/-- At its end nothing is left of the statement. -/
theorem Act.statement_run {act : Act} {st : State} (h : act.Ends st) :
    (act.run st).statement = {} := by
  cases act with
  | openBrace =>
      have hassign : findAssignment (trim st.statement.header) = none := h
      unfold Act.run State.braced
      simp only [hassign, Option.isSome_none, Bool.false_eq_true, if_false]
      cases stripStart? "namespace ".toList (trim st.statement.header) with
      | some name => rfl
      | none =>
          cases readTypeHeader (trim st.statement.header) with
          | some type =>
              dsimp only
              split <;> rfl
          | none =>
              cases st.enclosingType with
              | none => rfl
              | some owner =>
                  dsimp only
                  split
                  · rfl
                  · split <;> rfl
  | semicolon | closeBrace => rfl
  | comment | directive | write | attributes | blank => exact h.elim

/-! ## Blanks -/

namespace State

/-- The end of a line of blanks only ends a comment. -/
def endLine (st : State) : State :=
  { (if st.lineUsed then st else st.closeComment) with lineUsed := false }

/-- A run of blanks is one space, and none at the front. -/
def space (st : State) : State :=
  if st.statement.header.isEmpty || st.statement.header.getLast? == some ' ' then st
  else st.setHeader (st.statement.header ++ [' '])

theorem blank_eq (st : State) (c : Char) :
    st.blank c = if c = '\n' then st.endLine.space else st.space := by
  unfold blank
  split <;> rfl

end State

/-! ## The declarations so far -/

namespace State

/-- The other state with the comment, the header and the line of this one. -/
def beside (st other : State) : State :=
  { other with
    statement := { st.statement with attributes := other.statement.attributes }
    lineUsed := st.lineUsed }

theorem lineComment_beside (st other : State) (text : List Char) :
    (st.beside other).lineComment text = (st.lineComment text).beside other := by
  have haccepts : (st.beside other).acceptsComment = st.acceptsComment := rfl
  have hcomment : (st.beside other).statement.comment = st.statement.comment := rfl
  have hopen : (st.beside other).statement.commentOpen = st.statement.commentOpen := rfl
  unfold lineComment
  rw [haccepts, hcomment, hopen]
  split
  · split
    · rfl
    · split <;> rfl
  · rfl

theorem blockComment_beside (st other : State) (text : List Char) :
    (st.beside other).blockComment text = (st.blockComment text).beside other := by
  have haccepts : (st.beside other).acceptsComment = st.acceptsComment := rfl
  have hcomment : (st.beside other).statement.comment = st.statement.comment := rfl
  unfold blockComment
  rw [haccepts, hcomment]
  split <;> rfl

/-- A comment neither looks at the rest of a state nor changes it. -/
theorem readComment_beside (st other : State) (s text : List Char) :
    (st.beside other).readComment s text = (st.readComment s text).beside other := by
  rw [readComment_eq, readComment_eq, lineComment_beside, blockComment_beside]
  simp only [apply_ite fun st : State => st.beside other]
  rfl

/-- Nor does a blank. -/
theorem blank_beside (st other : State) (c : Char) :
    (st.beside other).blank c = (st.blank c).beside other := by
  have hline : (st.beside other).endLine = st.endLine.beside other := by
    have hused : (st.beside other).lineUsed = st.lineUsed := rfl
    unfold endLine
    rw [hused]
    split <;> rfl
  have hspace : ∀ st : State, (st.beside other).space = st.space.beside other := by
    intro st
    have hheader : (st.beside other).statement.header = st.statement.header := rfl
    unfold space
    rw [hheader]
    split <;> rfl
  rw [blank_eq, blank_eq, hline, hspace, hspace]
  split <;> rfl

section Beside

variable {f : State → State} (hf : ∀ st other : State, f (st.beside other) = (f st).beside other)
include hf

theorem onto_of_beside (st : State) (ds : List Declaration) : f (st.onto ds) = (f st).onto ds := by
  have hself : f st = (f st).beside st := hf st st
  have hother : f (st.onto ds) = (f st).beside (st.onto ds) := hf st (st.onto ds)
  rw [hother, hself]
  rfl

end Beside

theorem braced_of_goes {st : State} (h : ¬Act.openBrace.Ends st) :
    st.braced = st.write "\x7b\x7d ".toList := by
  have hsome : (findAssignment (trim st.statement.header)).isSome = true := by
    rw [Option.isSome_iff_ne_none]
    exact h
  unfold braced
  simp only [hsome, if_true]

end State

/-- What does not end a statement does not look at the declarations. -/
theorem Act.run_onto {act : Act} {st : State} (h : ¬act.Ends st) (ds : List Declaration) :
    act.run (st.onto ds) = (act.run st).onto ds := by
  cases act with
  | comment s text =>
      exact State.onto_of_beside (fun st other => st.readComment_beside other s text) st ds
  | openBrace =>
      have hother : ¬Act.openBrace.Ends (st.onto ds) := h
      rw [Act.run, Act.run, State.braced_of_goes h, State.braced_of_goes hother]
      rfl
  | blank c => exact State.onto_of_beside (fun st other => st.blank_beside other c) st ds
  | directive | write | attributes => rfl
  | semicolon | closeBrace => exact absurd trivial h

/-- And declares nothing. -/
theorem Act.declarations_run {act : Act} {st : State} (h : ¬act.Ends st) :
    (act.run st).declarations = st.declarations := by
  have hrun : act.run st = (act.run st).onto st.declarations := act.run_onto h st.declarations
  rw [hrun]
  rfl

namespace State

theorem next_onto {st st' : State} {c : Char} {rest after : List Char}
    (h : st.next c rest = .ok (st', after)) :
    ∃ more, st'.declarations = st.declarations ++ more ∧
      ∀ old, old.length = st.declarations.length →
        (st.onto old).next c rest = .ok (st'.onto (old ++ more), after) := by
  obtain ⟨act, rfl, -, -, hnext⟩ := next_act h
  have hacts : ∀ old, old.length = st.declarations.length →
      ∃ more, (act.run st).declarations = st.declarations ++ more ∧
        act.run (st.onto old) = (act.run st).onto (old ++ more) := by
    intro old hold
    by_cases hends : act.Ends st
    · have halike : st.EndsAlike (st.onto old) := ⟨⟨rfl, rfl⟩, rfl, hold⟩
      have hin := act.run_ends hends halike
      generalize act.run (st.onto old) = last at hin
      generalize act.run st = mid at hin
      cases hin with
      | nothing hnone hused =>
          refine ⟨[], by rw [hnone, List.append_nil], ?_⟩
          rw [hused rfl, List.append_nil]
          rfl
      | declared names kind bases hsome hused =>
          rw [hused rfl]
          exact ⟨_, hsome, rfl⟩
    · exact ⟨[], by rw [Act.declarations_run hends, List.append_nil],
        by rw [Act.run_onto hends, List.append_nil]⟩
  obtain ⟨more, hmore, -⟩ := hacts st.declarations rfl
  refine ⟨more, hmore, fun old hold => ?_⟩
  obtain ⟨more', hmore', hrun⟩ := hacts old hold
  rw [hmore, List.append_cancel_left_eq] at hmore'
  rw [hnext (st.onto old) ⟨rfl, rfl⟩, hrun, hmore']

end State

/-- The declarations so far stay as they are, and only their number matters. -/
theorem scanFrom_onto {st : State} {s : List Char} {ds : List Declaration}
    (h : scanFrom st s = .ok ds) :
    ∃ more, ds = st.declarations ++ more ∧
      ∀ old, old.length = st.declarations.length → scanFrom (st.onto old) s = .ok (old ++ more) := by
  refine scanFrom_induction (motive := fun st s => ∃ more, ds = st.declarations ++ more ∧
    ∀ old, old.length = st.declarations.length →
      scanFrom (st.onto old) s = .ok (old ++ more)) ?_ ?_ h
  · intro st hst
    obtain ⟨rfl, hscopes⟩ := Prod.mk.inj hst
    refine ⟨[], (List.append_nil _).symm, fun old _ => ?_⟩
    have hopen : (st.onto old).scopes = [] := hscopes
    rw [scanFrom, hopen, List.append_nil]
    rfl
  · rintro st c rest st' after hnext ⟨more, rfl, ih⟩
    obtain ⟨new, hnew, hstep⟩ := State.next_onto hnext
    refine ⟨new ++ more, by rw [hnew, List.append_assoc], fun old hold => ?_⟩
    have hlength : (old ++ new).length = st'.declarations.length := by
      rw [hnew, List.length_append, List.length_append, hold]
    rw [scanFrom_cons, hstep old hold]
    exact (ih _ hlength).trans (by rw [List.append_assoc])

end Declaration
end DocPages
