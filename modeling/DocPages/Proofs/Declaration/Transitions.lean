/-
What one step of a scan can do.

A step reads a comment, a directive, a literal or one sign.  `State.Step` lists what it then
does to the state, and `State.StopsAt` lists why it fails: `State.next_eq_ok_iff` and
`State.next_eq_error_iff`.  What all steps have in common is shown by the cases of the two.
-/
import DocPages.Declaration.Scan
import DocPages.Proofs.Declaration.Closed

namespace DocPages
namespace Declaration

open Text

section Except

variable {ε α β : Type}

theorem bind_eq_ok {x : Except ε α} {f : α → Except ε β} {b : β} :
    x.bind f = .ok b ↔ ∃ a, x = .ok a ∧ f a = .ok b := by
  cases x with
  | error e =>
      constructor
      · rintro ⟨⟩
      · rintro ⟨_, ⟨⟩, _⟩
  | ok a =>
      constructor
      · intro h
        exact ⟨a, rfl, h⟩
      · rintro ⟨_, ⟨⟩, h⟩
        exact h

theorem map_eq_ok {x : Except ε α} {f : α → β} {b : β} :
    x.map f = .ok b ↔ ∃ a, x = .ok a ∧ f a = b := by
  have hbind : x.map f = x.bind fun a => .ok (f a) := by cases x <;> rfl
  rw [hbind, bind_eq_ok]
  simp only [Except.ok.injEq]

end Except

/-! ## What a brace opens -/

inductive Opening where
  /-- A namespace, or a type that has members. -/
  | scope
  | body
  /-- The body of a property, which an initializer may follow. -/
  | property
deriving Repr, DecidableEq

/-- The text after what a brace opens, as far as it is passed over. -/
def Opening.pass (opening : Opening) (s : List Char) : Rest :=
  match opening with
  | .scope => .ok s
  | .body => afterBlock s
  | .property => (afterBlock s).bind afterInitializer

namespace State

/-- What a brace opens here, told from the header in front of it. -/
def opening (st : State) : Opening :=
  let header := trim st.statement.header
  if (findAssignment header).isSome then .body
  else
    match stripStart? "namespace ".toList header, readTypeHeader header, st.enclosingType with
    | some _, _, _ => .scope
    | none, some type, _ => if type.kind.isContainer then .scope else .body
    | none, none, some _ => if header.contains '(' || header.isEmpty then .body else .property
    | none, none, none => .body

/-- What an opening brace does to the state. -/
def braced (st : State) : State :=
  let header := trim st.statement.header
  if (findAssignment header).isSome then st.write "\x7b\x7d ".toList
  else
    match stripStart? "namespace ".toList header, readTypeHeader header, st.enclosingType with
    | some name, _, _ => (st.openScope (.namespaceScope (trim name))).endStatement
    | none, some type, _ =>
      let declared := st.declare [type.name] type.kind type.bases
      if type.kind.isContainer then
        (declared.openScope (.typeScope st.declarations.length type.name)).endStatement
      else declared.endStatement.touchLine
    | none, none, some (_, typeName) =>
      if header.contains '(' then
        (st.declareNamed .method (methodName header typeName)).endStatement.touchLine
      else if header.isEmpty then st.endStatement.touchLine
      else (st.declareNamed .property (propertyName header)).endStatement.touchLine
    | none, none, none => st.endStatement.touchLine

/-- What stands behind a brace tells only where scanning goes on. -/
theorem openBrace_eq (st : State) (s : List Char) :
    st.openBrace s = (st.opening.pass s).map fun after => (st.braced, after) := by
  have hbody : ∀ st : State, ((afterBlock s).bind fun after => .ok (st, after)) =
      (Opening.body.pass s).map fun after => (st, after) := by
    intro st
    rw [Opening.pass]
    cases afterBlock s <;> rfl
  have hproperty : ∀ st : State,
      ((afterBlock s).bind fun after => (afterInitializer after).bind fun rest => .ok (st, rest)) =
        (Opening.property.pass s).map fun after => (st, after) := by
    intro st
    rw [Opening.pass]
    cases afterBlock s with
    | error u => rfl
    | ok after => cases h : afterInitializer after <;> simp [Except.bind, Except.map, h]
  unfold openBrace opening braced
  simp only [bind, pure, Except.pure]
  cases (findAssignment (trim st.statement.header)).isSome with
  | true => exact hbody _
  | false =>
      cases stripStart? "namespace ".toList (trim st.statement.header) with
      | some name => rfl
      | none =>
          cases readTypeHeader (trim st.statement.header) with
          | some type =>
              dsimp only
              cases type.kind.isContainer with
              | true => rfl
              | false => exact hbody _
          | none =>
              cases st.enclosingType with
              | none => exact hbody _
              | some owner =>
                  dsimp only
                  cases (trim st.statement.header).contains '(' with
                  | true => exact hbody _
                  | false =>
                      cases (trim st.statement.header).isEmpty with
                      | true => exact hbody _
                      | false => exact hproperty _

/-! ## What is read -/

/-- What a comment does to the state.  `text` is the comment, and `s` starts with it. -/
def readComment (st : State) (s text : List Char) : State :=
  match s with
  | '/' :: '/' :: '/' :: '/' :: _ => st.touchLine.closeComment
  | '/' :: '/' :: '/' :: _ => st.lineComment text
  | '/' :: '*' :: '*' :: '/' :: _ => st.touchLine.closeComment
  | '/' :: '*' :: '*' :: _ => st.blockComment text
  | _ => st.touchLine.closeComment

theorem next_comment {st : State} {c : Char} {s after : List Char}
    (h : afterComment? (c :: s) = some (.ok after)) :
    st.next c s = .ok (st.readComment (c :: s)
      ((c :: s).take ((c :: s).length - after.length)), after) := by
  rw [State.next]
  simp only [h]
  rfl

theorem next_comment_error {st : State} {c : Char} {s : List Char} {u : Unclosed}
    (h : afterComment? (c :: s) = some (.error u)) : st.next c s = .error (.unclosed u) := by
  rw [State.next]
  simp only [h]

theorem next_directive {st : State} {c : Char} {s : List Char} (hc : afterComment? (c :: s) = none)
    (hash : c = '#' ∧ st.headerBlank = true) : st.next c s = .ok (st.touchLine, dropLine s) := by
  rw [State.next]
  simp only [hc, if_pos hash]

theorem next_literal {st : State} {c : Char} {s : List Char} (hc : afterComment? (c :: s) = none)
    (hash : ¬(c = '#' ∧ st.headerBlank = true)) {read : Rest}
    (h : afterLiteral? (c :: s) = some read) :
    st.next c s = (read.mapError .unclosed).map fun after =>
      (st.write (if c = '\'' then "''".toList else "\"\"".toList), after) := by
  rw [State.next]
  simp only [hc, if_neg hash, h]
  cases read <;> rfl

theorem not_directive_of_literal {st : State} {c : Char} {s : List Char} {read : Rest}
    (h : afterLiteral? (c :: s) = some read) : ¬(c = '#' ∧ st.headerBlank = true) := by
  rintro ⟨rfl, -⟩
  rw [afterLiteral?_of_plain (by decide) (by decide) rfl] at h
  cases h

theorem next_code {st : State} {c : Char} {s : List Char} (hc : afterComment? (c :: s) = none)
    (hash : ¬(c = '#' ∧ st.headerBlank = true)) (hl : afterLiteral? (c :: s) = none) :
    st.next c s =
      if c = '[' ∧ st.headerBlank then
        match readSection (c :: s) s with
        | .error u => .error (.unclosed u)
        | .ok (inner, after) => .ok (st.attributeSection inner, after)
      else if c = '\x7b' then (st.openBrace s).mapError .unclosed
      else if c = ';' then .ok (st.semicolon, s)
      else if c = '\x7d' then
        match st.scopes with
        | [] => .error (.unbalanced s)
        | _ :: outer => .ok ({ st with scopes := outer }.endStatement.touchLine, s)
      else if isBlank c then .ok (st.blank c, s)
      else .ok (st.write [c], s) := by
  have hnext := next.eq_def st c s
  simp only [hc, hl, if_neg hash] at hnext
  exact hnext

theorem next_brace (st : State) (s : List Char) :
    st.next '\x7b' s = (st.openBrace s).mapError .unclosed :=
  next_code (afterComment?_of_ne (by decide) _) (by simp)
    (afterLiteral?_of_plain (by decide) (by decide) rfl _)

theorem next_brace_eq_ok {st st' : State} {s after : List Char} :
    st.next '\x7b' s = .ok (st', after) ↔ st.opening.pass s = .ok after ∧ st' = st.braced := by
  rw [next_brace, mapError_eq_ok, openBrace_eq, map_eq_ok]
  constructor
  · rintro ⟨_, hpass, ⟨⟩⟩
    exact ⟨hpass, rfl⟩
  · rintro ⟨hpass, rfl⟩
    exact ⟨after, hpass, rfl⟩

/-! ## The steps -/

/-- What a character does that starts neither a comment, nor a directive, nor a literal. -/
inductive CodeStep (st : State) : Char → List Char → State → List Char → Prop
  | attributes {s inner after : List Char} : st.headerBlank = true →
      readSection ('[' :: s) s = .ok (inner, after) →
      st.CodeStep '[' s (st.attributeSection inner) after
  | openBrace {s after : List Char} : st.opening.pass s = .ok after →
      st.CodeStep '\x7b' s st.braced after
  | semicolon {s : List Char} : st.CodeStep ';' s st.semicolon s
  | closeBrace {scope : Scope} {outer : List Scope} {s : List Char} : st.scopes = scope :: outer →
      st.CodeStep '\x7d' s { st with scopes := outer }.endStatement.touchLine s
  | blank {c : Char} {s : List Char} : isBlank c = true → st.CodeStep c s (st.blank c) s
  | write {c : Char} {s : List Char} : isBlank c = false → c ∉ "\x7b\x7d;".toList →
      (c = '[' → st.headerBlank = false) → st.CodeStep c s (st.write [c]) s

theorem next_code_eq_ok_iff {st st' : State} {c : Char} {s after : List Char}
    (hc : afterComment? (c :: s) = none) (hash : ¬(c = '#' ∧ st.headerBlank = true))
    (hl : afterLiteral? (c :: s) = none) :
    st.next c s = .ok (st', after) ↔ st.CodeStep c s st' after := by
  rw [next_code hc hash hl]
  constructor
  · intro h
    split at h
    · rename_i hopen
      obtain ⟨rfl, hblank⟩ := hopen
      cases hsection : readSection ('[' :: s) s with
      | error u =>
          rw [hsection] at h
          cases h
      | ok read =>
          rw [hsection] at h
          cases h
          exact .attributes hblank hsection
    rename_i hopen
    split at h
    · subst c
      rw [mapError_eq_ok, openBrace_eq] at h
      obtain ⟨after, hpass, heq⟩ := map_eq_ok.1 h
      cases heq
      exact .openBrace hpass
    rename_i hbrace
    split at h
    · subst c
      cases h
      exact .semicolon
    rename_i hend
    split at h
    · subst c
      cases hscopes : st.scopes with
      | nil =>
          rw [hscopes] at h
          cases h
      | cons scope outer =>
          rw [hscopes] at h
          cases h
          exact .closeBrace hscopes
    rename_i hclose
    split at h
    · rename_i hblank
      cases h
      exact .blank hblank
    · rename_i hblank
      cases h
      refine .write (eq_false_of_ne_true hblank) (by simp [hbrace, hend, hclose]) fun hbracket => ?_
      exact eq_false_of_ne_true fun hheader => hopen ⟨hbracket, hheader⟩
  · intro h
    cases h with
    | attributes hblank hsection => rw [if_pos ⟨rfl, hblank⟩, hsection]
    | openBrace hpass =>
        rw [if_neg (by simp), if_pos rfl, mapError_eq_ok, openBrace_eq, hpass]
        rfl
    | semicolon => rfl
    | closeBrace hscopes => simp [hscopes]
    | blank hblank =>
        have htable : ∀ d ∈ "[\x7b;\x7d".toList, isBlank d = false := by decide
        have hsign : c ∉ "[\x7b;\x7d".toList := fun hmem => by
          rw [htable c hmem] at hblank
          cases hblank
        simp only [String.reduceToList, List.mem_cons, List.not_mem_nil, or_false, not_or] at hsign
        simp [hsign, hblank]
    | write hblank hsign hopen =>
        simp only [String.reduceToList, List.mem_cons, List.not_mem_nil, or_false, not_or] at hsign
        have hheader : ¬(c = '[' ∧ st.headerBlank = true) := by
          rintro ⟨hc, hheader⟩
          rw [hopen hc] at hheader
          cases hheader
        simp [hheader, hsign, hblank]

/-- What a step does. -/
inductive Step (st : State) (c : Char) (s : List Char) : State → List Char → Prop
  | comment {after : List Char} : afterComment? (c :: s) = some (.ok after) →
      st.Step c s (st.readComment (c :: s) ((c :: s).take ((c :: s).length - after.length))) after
  | directive : c = '#' → st.headerBlank = true → st.Step c s st.touchLine (dropLine s)
  | literal {after : List Char} : afterLiteral? (c :: s) = some (.ok after) →
      st.Step c s (st.write (if c = '\'' then "''".toList else "\"\"".toList)) after
  | code {st' : State} {after : List Char} : afterComment? (c :: s) = none →
      ¬(c = '#' ∧ st.headerBlank = true) → afterLiteral? (c :: s) = none →
      st.CodeStep c s st' after → st.Step c s st' after

theorem next_eq_ok_iff {st st' : State} {c : Char} {s after : List Char} :
    st.next c s = .ok (st', after) ↔ st.Step c s st' after := by
  constructor
  · intro h
    cases hcomment : afterComment? (c :: s) with
    | some read =>
        cases read with
        | error u =>
            rw [next_comment_error hcomment] at h
            cases h
        | ok after =>
            rw [next_comment hcomment] at h
            cases h
            exact .comment hcomment
    | none =>
        by_cases hash : c = '#' ∧ st.headerBlank = true
        · rw [next_directive hcomment hash] at h
          cases h
          exact .directive hash.1 hash.2
        cases hliteral : afterLiteral? (c :: s) with
        | some read =>
            rw [next_literal hcomment hash hliteral] at h
            obtain ⟨after, hread, heq⟩ := map_eq_ok.1 h
            cases mapError_eq_ok.1 hread
            cases heq
            exact .literal hliteral
        | none =>
            have hstep := (next_code_eq_ok_iff hcomment hash hliteral).1 h
            exact .code hcomment hash hliteral hstep
  · intro h
    cases h with
    | comment hcomment => exact next_comment hcomment
    | directive hc hblank =>
        subst c
        exact next_directive (afterComment?_of_ne (by decide) s) ⟨rfl, hblank⟩
    | literal hliteral =>
        rw [next_literal (afterComment?_of_literal hliteral) (not_directive_of_literal hliteral)
          hliteral]
        rfl
    | code hcomment hash hliteral hstep =>
        exact (next_code_eq_ok_iff hcomment hash hliteral).2 hstep

/-- A sign tells by itself that it is code. -/
theorem CodeStep.step {st st' : State} {c : Char} {s after : List Char}
    (h : st.CodeStep c s st' after) (hc : c ∉ "/#'\"@$".toList) : st.Step c s st' after := by
  simp only [String.reduceToList, List.mem_cons, List.not_mem_nil, or_false, not_or] at hc
  have hmark : isStringMark c = false := by simp [isStringMark, hc]
  exact .code (afterComment?_of_ne hc.1 s) (fun hash => hc.2.1 hash.1)
    (afterLiteral?_of_plain hc.2.2.1 hc.2.2.2.1 hmark s) h

theorem step_blank (st : State) {c : Char} (h : isBlank c = true) (s : List Char) :
    st.Step c s (st.blank c) s := by
  have htable : ∀ d ∈ "/#'\"@$".toList, isBlank d = false := by decide
  refine CodeStep.step (.blank h) fun hmem => ?_
  rw [htable c hmem] at h
  cases h

/-! ## Why a step fails -/

/-- Why a step fails in front of a character. -/
inductive StopsAt (st : State) : Char → List Char → Stop → Prop
  | comment {c : Char} {rest : List Char} {u : Unclosed} :
      afterComment? (c :: rest) = some (.error u) → st.StopsAt c rest (.unclosed u)
  | literal {c : Char} {rest : List Char} {u : Unclosed} :
      afterLiteral? (c :: rest) = some (.error u) → st.StopsAt c rest (.unclosed u)
  | attributes {rest : List Char} {u : Unclosed} : st.headerBlank = true →
      toSectionEnd ('[' :: rest) 0 rest = .error u → st.StopsAt '[' rest (.unclosed u)
  | passed {rest : List Char} {u : Unclosed} : st.opening.pass rest = .error u →
      st.StopsAt '\x7b' rest (.unclosed u)
  | unbalanced {rest : List Char} : st.scopes = [] → st.StopsAt '\x7d' rest (.unbalanced rest)

theorem stopsAt_of_code {st : State} {c : Char} {rest : List Char} {stop : Stop}
    (hcomment : afterComment? (c :: rest) = none) (hash : ¬(c = '#' ∧ st.headerBlank = true))
    (hliteral : afterLiteral? (c :: rest) = none) (h : st.next c rest = .error stop) :
    st.StopsAt c rest stop := by
  rw [next_code hcomment hash hliteral] at h
  split at h
  · rename_i hopen
    obtain ⟨rfl, hblank⟩ := hopen
    rw [readSection] at h
    cases hsection : toSectionEnd ('[' :: rest) 0 rest with
    | ok closing =>
        rw [hsection] at h
        cases h
    | error u =>
        rw [hsection] at h
        cases h
        exact .attributes hblank hsection
  split at h
  · rename_i hbrace
    subst hbrace
    rw [openBrace_eq] at h
    cases hpass : st.opening.pass rest with
    | ok after =>
        rw [hpass] at h
        cases h
    | error u =>
        rw [hpass] at h
        cases h
        exact .passed hpass
  split at h
  · cases h
  split at h
  · rename_i hclose
    subst hclose
    split at h
    · rename_i hscopes
      cases h
      exact .unbalanced hscopes
    · cases h
  · split at h <;> cases h

theorem next_eq_error_iff {st : State} {c : Char} {rest : List Char} {stop : Stop} :
    st.next c rest = .error stop ↔ st.StopsAt c rest stop := by
  constructor
  · intro h
    cases hcomment : afterComment? (c :: rest) with
    | some read =>
        cases read with
        | ok after =>
            rw [next_comment hcomment] at h
            cases h
        | error u =>
            rw [next_comment_error hcomment] at h
            cases h
            exact .comment hcomment
    | none =>
        by_cases hash : c = '#' ∧ st.headerBlank = true
        · rw [next_directive hcomment hash] at h
          cases h
        cases hliteral : afterLiteral? (c :: rest) with
        | none => exact stopsAt_of_code hcomment hash hliteral h
        | some read =>
            rw [next_literal hcomment hash hliteral] at h
            cases read with
            | ok after => cases h
            | error u =>
                cases h
                exact .literal hliteral
  · intro h
    cases h with
    | comment hcomment => exact next_comment_error hcomment
    | literal hliteral =>
        rw [next_literal (afterComment?_of_literal hliteral) (not_directive_of_literal hliteral)
          hliteral]
        rfl
    | attributes hblank hsection =>
        rw [next_code (afterComment?_of_ne (by decide) _) (by simp)
          (afterLiteral?_of_plain (by decide) (by decide) rfl _), if_pos ⟨rfl, hblank⟩, readSection,
          hsection]
        rfl
    | passed hpass =>
        rw [next_brace, openBrace_eq, hpass]
        rfl
    | unbalanced hscopes =>
        rw [next_code (afterComment?_of_ne (by decide) _) (by simp)
          (afterLiteral?_of_plain (by decide) (by decide) rfl _)]
        simp [hscopes]

end State

theorem scanFrom_next {st st' : State} {c : Char} {s after : List Char}
    (h : st.next c s = .ok (st', after)) : scanFrom st (c :: s) = scanFrom st' after := by
  rw [scanFrom_cons, h]
  rfl

theorem scanFrom_step {st st' : State} {c : Char} {s after : List Char}
    (h : st.Step c s st' after) : scanFrom st (c :: s) = scanFrom st' after :=
  scanFrom_next (State.next_eq_ok_iff.2 h)

/-- In a literal nothing is looked for, and its content is left out. -/
theorem scanFrom_literal {st : State} {c : Char} {s after : List Char}
    (h : afterLiteral? (c :: s) = some (.ok after)) :
    scanFrom st (c :: s) =
      scanFrom (st.write (if c = '\'' then "''".toList else "\"\"".toList)) after :=
  scanFrom_step (.literal h)

end Declaration
end DocPages
