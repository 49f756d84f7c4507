/-
The lines that a fault tells.

A fault tells the line of something in the source: of a brace, of what opens and never ends, or,
for the initializer of a property, of the end of the body in front of it.  Where it stands is told
by how the scan comes to it.
-/
import DocPages.Proofs.Declaration.Loops
import DocPages.Proofs.Declaration.Positions

namespace DocPages
namespace Declaration

open Text

/-! ## What is left is an end of the text -/

section Suffix

variable {s after : List Char}

theorem Reading.Reads.suffix {α : Type} {x : Reading α} {a : α} (h : Reads s x s (.ok (a, after))) :
    after <:+ s := by
  obtain ⟨t, -, ht⟩ := h {} (.start s)
  exact ht.now.suffix

theorem afterComment?_suffix (h : afterComment? s = some (.ok after)) : after <:+ s := by
  have hread := @Reading.reads_comment s s
  rw [h] at hread
  exact hread.suffix

theorem afterLiteral?_suffix (h : afterLiteral? s = some (.ok after)) : after <:+ s := by
  cases s with
  | nil => cases h
  | cons c s =>
      have hread := @Reading.reads_literal (c :: s) c s
      rw [h] at hread
      exact hread.suffix

/-- What is left behind a block stands behind its closing brace. -/
theorem afterBlockFrom_suffix {opens : List Char} {depth : Nat}
    (h : afterBlockFrom opens depth s = .ok after) : '\x7d' :: after <:+ s := by
  fun_induction afterBlockFrom opens depth s with
  | case1 => cases h
  | case2 => cases h
  | case3 _ _ _ _ hcomment _ ih => exact (ih h).trans (afterComment?_suffix hcomment)
  | case4 => cases h
  | case5 _ _ _ _ _ hliteral _ ih => exact (ih h).trans (afterLiteral?_suffix hliteral)
  | case6 _ rest _ _ ih => exact (ih h).trans (List.suffix_cons _ rest)
  | case7 =>
      cases h
      exact List.suffix_refl _
  | case8 rest _ _ _ _ ih => exact (ih h).trans (List.suffix_cons _ rest)
  | case9 _ _ rest _ _ _ _ ih => exact (ih h).trans (List.suffix_cons _ rest)

theorem State.next_suffix {st st' : State} {c : Char} {rest : List Char}
    (h : st.next c rest = .ok (st', after)) : after <:+ c :: rest := by
  have hread := @Reading.reads_state (c :: rest) st c rest
  rw [h] at hread
  exact hread.suffix

theorem ComesTo.suffix {st last : State} (h : ComesTo st s last after) : after <:+ s := by
  induction h with
  | here => exact List.suffix_refl _
  | step hnext _ ih => exact ih.trans (State.next_suffix hnext)

namespace Loop

variable {loop : Loop}

theorem turn_suffix {depth mid : Nat} {c : Char} {rest : List Char}
    (h : loop.turn depth c rest = some (mid, after)) : after <:+ c :: rest := by
  rcases turn_eq_some.1 h with ⟨hread, -⟩ | ⟨-, hcode⟩
  · rcases lexeme?_eq_some.1 hread with ⟨-, hcomment⟩ | hliteral
    · exact afterComment?_suffix hcomment
    · exact afterLiteral?_suffix hliteral
  · refine List.IsSuffix.trans ?_ (List.suffix_cons c rest)
    cases loop with
    | block | attributes =>
        obtain ⟨-, rfl⟩ := code_nest hcode
        exact List.suffix_refl _
    | initializer =>
        obtain ⟨-, -, hread⟩ := code_initializer.1 hcode
        split at hread
        · exact (List.suffix_cons _ _).trans (afterBlockFrom_suffix hread)
        · subst hread
          exact List.suffix_refl _

theorem Reaches.suffix {depth last : Nat} (h : loop.Reaches depth s last after) : after <:+ s := by
  induction h with
  | here => exact List.suffix_refl _
  | step hturn _ ih => exact ih.trans (turn_suffix hturn)

end Loop

end Suffix

/-! ## Why a loop fails -/

namespace Loop

def what : Loop → Enclosed
  | .block => .block
  | .initializer => .propertyInitializer
  | .attributes => .attributeSection

/-- The character in front of what the loop passes over. -/
def opener : Loop → Char
  | .block => '\x7b'
  | .initializer => '\x7d'
  | .attributes => '['

/-- The text whose line the loop reports if it does not end. -/
def place : Loop → List Char → List Char
  | .block, s | .initializer, s => s
  | .attributes, s => '[' :: s

/-- Why the loop fails in front of a text: the text is over, what is read whole does not end, or
the body that opens here does not. -/
inductive Fails (loop : Loop) (opens : List Char) : List Char → Unclosed → Prop
  | ended : loop.Fails opens [] ⟨loop.what, opens⟩
  | lexeme {r : List Char} {u : Unclosed} : loop.lexeme? r = some (.error u) → loop.Fails opens r u
  | body {r : List Char} {u : Unclosed} : loop = .initializer → afterBlock r = .error u →
      loop.Fails opens ('\x7b' :: r) u

variable {loop : Loop} {opens : List Char} {depth : Nat} {u : Unclosed}

theorem after_nil : loop.after opens depth [] = .error ⟨loop.what, opens⟩ := by
  cases loop with
  | block => rw [after, afterBlockFrom, what]
  | initializer => rw [after, afterInitializerFrom, what]
  | attributes => rw [after, toSectionEnd, what]

theorem after_lexeme_error {c : Char} {rest : List Char}
    (h : loop.lexeme? (c :: rest) = some (.error u)) :
    loop.after opens depth (c :: rest) = .error u := by
  rcases lexeme?_eq_some.1 h with ⟨hcomments, hcomment⟩ | hliteral
  · cases loop with
    | block => exact afterBlockFrom_comment_error hcomment
    | initializer | attributes => cases hcomments
  · cases loop with
    | block =>
        exact afterBlockFrom_literal_error (afterComment?_of_literal hliteral) hliteral
    | initializer => exact afterInitializerFrom_literal_error hliteral
    | attributes => exact toSectionEnd_literal_error hliteral

/-- The closing character at which a loop ends is its own. -/
theorem nest_eq_none {opening closing c : Char}
    (h : nest opening closing depth c = none) : c ≠ opening ∧ c = closing ∧ depth = 0 := by
  unfold nest at h
  split at h
  · cases h
  · rename_i hopen
    split at h
    · rename_i hclose
      cases depth with
      | zero => exact ⟨hopen, hclose, rfl⟩
      | succ depth => cases h
    · cases h

/-- A loop goes on in front of a character unless it ends there or fails. -/
theorem fails_of_turn {c : Char} {rest : List Char} (hturn : loop.turn depth c rest = none)
    (h : loop.after opens depth (c :: rest) = .error u) : loop.Fails opens (c :: rest) u := by
  cases hlexeme : loop.lexeme? (c :: rest) with
  | some read =>
      rw [turn, hlexeme] at hturn
      cases read with
      | ok after => cases hturn
      | error v =>
          cases (after_lexeme_error hlexeme).symm.trans h
          exact .lexeme hlexeme
  | none =>
      have hcode : loop.code depth c rest = none := by
        rw [turn, hlexeme] at hturn
        exact hturn
      obtain ⟨hcomment, hliteral⟩ := lexeme?_eq_none.1 hlexeme
      cases loop with
      | block =>
          obtain ⟨hopen, hclose, rfl⟩ := nest_eq_none (Option.map_eq_none_iff.1 hcode)
          rw [after, afterBlockFrom_code (hcomment rfl) hliteral, if_neg hopen, if_pos hclose] at h
          cases h
      | attributes =>
          obtain ⟨hopen, hclose, rfl⟩ := nest_eq_none (Option.map_eq_none_iff.1 hcode)
          rw [after, toSectionEnd_code hliteral, if_neg hopen, if_pos hclose] at h
          cases h
      | initializer =>
          rw [after, afterInitializerFrom_code hliteral] at h
          rw [code] at hcode
          split at h
          · cases h
          · rename_i hend
            rw [if_neg hend] at hcode
            split at hcode
            · rename_i hopen
              rw [if_pos hopen] at h
              subst hopen
              cases hblock : afterBlock rest with
              | error v =>
                  rw [hblock] at h
                  cases h
                  exact .body rfl hblock
              | ok after =>
                  rw [hblock] at hcode
                  cases hcode
            · cases hcode

theorem exists_fails {s : List Char} (h : loop.after opens depth s = .error u) :
    ∃ last r, loop.Reaches depth s last r ∧ loop.Fails opens r u := by
  induction hn : s.length using Nat.strong_induction_on generalizing s depth with
  | _ n ih =>
      cases s with
      | nil =>
          rw [after_nil] at h
          cases h
          exact ⟨depth, [], .here, .ended⟩
      | cons c rest =>
          cases hturn : loop.turn depth c rest with
          | none => exact ⟨depth, c :: rest, .here, fails_of_turn hturn h⟩
          | some next =>
              obtain ⟨mid, after⟩ := next
              rw [after_turn hturn] at h
              have hlt : after.length < n := hn ▸ Nat.lt_succ_of_le (turn_length hturn)
              obtain ⟨last, r, hreaches, hfails⟩ := ih after.length hlt h rfl
              exact ⟨last, r, .step hturn hreaches, hfails⟩

end Loop

/-! ## Why a scan fails -/

/-- A scan stops at a step that fails, or at the end. -/
theorem exists_of_scanFrom_error {st : State} {s : List Char} {stop : Stop}
    (h : scanFrom st s = .error stop) :
    (∃ last c rest, ComesTo st s last (c :: rest) ∧ last.StopsAt c rest stop) ∨
      ∃ last, ComesTo st s last [] ∧ last.scopes ≠ [] ∧ stop = .openScopes last.scopes.length := by
  fun_induction scanFrom st s with
  | case1 => cases h
  | case2 st hopen =>
      cases h
      refine .inr ⟨st, .here, ?_, rfl⟩
      rintro hscopes
      rw [hscopes] at hopen
      exact hopen rfl
  | case3 st c rest stop' hnext =>
      cases h
      exact .inl ⟨st, c, rest, .here, State.next_eq_error_iff.1 hnext⟩
  | case4 st c rest st' after hnext _ ih =>
      rcases ih h with ⟨last, d, rest', hcomes, hstops⟩ | ⟨last, hcomes, hscopes, hstop⟩
      · exact .inl ⟨last, d, rest', .step hnext hcomes, hstops⟩
      · exact .inr ⟨last, .step hnext hcomes, hscopes, hstop⟩

/-! ## What is open where a scan stops -/

theorem restOr_error {what : Enclosed} {opens : List Char} {found : Option (List Char)}
    {u : Unclosed} (h : restOr what opens found = .error u) : u = ⟨what, opens⟩ := by
  cases found with
  | some rest => cases h
  | none =>
      cases h
      rfl

/-- The scan passes over what follows, loop by loop. -/
inductive Starts (source : List Char) : Loop → List Char → Prop
  | body {st : State} {s : List Char} : ComesTo {} source st ('\x7b' :: s) →
      st.opening ≠ .scope → Starts source .block s
  | attributes {st : State} {s : List Char} : ComesTo {} source st ('[' :: s) →
      st.headerBlank = true → Starts source .attributes s
  /-- The body of a property is over, and an assignment follows it. -/
  | initializer {st : State} {body s : List Char} : ComesTo {} source st ('\x7b' :: body) →
      st.opening = .property → afterBlock body = .ok s → atAssignment s = true →
      Starts source .initializer s
  | inner {opens s : List Char} {depth : Nat} : Starts source .initializer opens →
      Loop.initializer.Reaches 0 opens depth ('\x7b' :: s) → Starts source .block s

/-- The scan comes to a text, in front of which a comment or a literal would be read whole.  In some
loops comments are not. -/
inductive Meets (source : List Char) : Bool → List Char → Prop
  | code {st : State} {s : List Char} : ComesTo {} source st s → Meets source true s
  | turn {loop : Loop} {opens s : List Char} {depth : Nat} : Starts source loop opens →
      loop.Reaches 0 opens depth s → Meets source loop.comments s

/-- The loop that starts here comes to the end of the source. -/
def Unended (source : List Char) (loop : Loop) (s : List Char) : Prop :=
  Starts source loop s ∧ ∃ depth, loop.Reaches 0 s depth []

/-- What opens here, and the scan does not find the end of it. -/
def Opens (source : List Char) : Enclosed → List Char → Prop
  | .blockComment, s =>
    Meets source true s ∧ ∃ body, s = '/' :: '*' :: body ∧ ¬"*/".toList <:+: body
  | .stringLiteral, s =>
    (∃ comments, Meets source comments s) ∧ atString s = true ∧ ∀ after, afterString s ≠ .ok after
  | .charLiteral, s =>
    (∃ comments, Meets source comments s) ∧ ∃ body, s = '\'' :: body ∧ afterCharBody body = none
  | .block, s => ∃ body, s = '\x7b' :: body ∧ Unended source .block body
  | .attributeSection, s => ∃ inner, s = '[' :: inner ∧ Unended source .attributes inner
  | .propertyInitializer, s => ∃ rest, s = '\x7d' :: rest ∧ Unended source .initializer rest

/-- A text with which the source ends starts on this line. -/
def OnLine (source s : List Char) (line : Nat) : Prop :=
  ∃ front, source = front ++ s ∧ line = 1 + front.count '\n'

theorem onLine_of_suffix {source s : List Char} (h : s <:+ source) :
    OnLine source s (lineOf source s) := by
  obtain ⟨front, rfl⟩ := h
  exact ⟨front, rfl, lineOf_append front s⟩

/-- A character that does not end the line is on that of what follows. -/
theorem onLine_cons {source s : List Char} {c : Char} (hc : c ≠ '\n') (h : c :: s <:+ source) :
    OnLine source (c :: s) (lineOf source s) := by
  obtain ⟨front, rfl⟩ := h
  refine ⟨front, rfl, ?_⟩
  have hline := lineOf_append (front ++ [c]) s
  rw [List.append_assoc, List.singleton_append, List.count_append,
    List.count_singleton, if_neg (by simpa using hc)] at hline
  exact hline

/-- What does not end is told by the line on which it opens. -/
def Explained (source : List Char) (u : Unclosed) : Prop :=
  ∃ s, Opens source u.what s ∧ OnLine source s (lineOf source u.opens)

section Explain

variable {source s : List Char} {u : Unclosed}

theorem Starts.suffix {loop : Loop} (h : Starts source loop s) : loop.opener :: s <:+ source := by
  induction h with
  | body hcomes | attributes hcomes => exact hcomes.suffix
  | initializer hcomes _ hbody =>
      exact (afterBlockFrom_suffix hbody).trans ((List.suffix_cons _ _).trans hcomes.suffix)
  | inner _ hreaches ih => exact hreaches.suffix.trans ((List.suffix_cons _ _).trans ih)

theorem Meets.suffix {comments : Bool} (h : Meets source comments s) : s <:+ source := by
  cases h with
  | code hcomes => exact hcomes.suffix
  | turn hstarts hreaches =>
      exact hreaches.suffix.trans ((List.suffix_cons _ _).trans hstarts.suffix)

theorem Meets.comment_explained (h : Meets source true s)
    (hcomment : afterComment? s = some (.error u)) : Explained source u := by
  have hfront := h.suffix
  unfold afterComment? at hcomment
  split at hcomment
  · cases hcomment
  · rename_i body
    have hblock := Option.some.inj hcomment
    unfold afterBlockComment at hblock
    cases hcut : breakOn "*/".toList (('/' :: '*' :: body).drop 2) with
    | some cut =>
        rw [hcut] at hblock
        cases hblock
    | none =>
        rw [hcut] at hblock
        cases hblock
        exact ⟨_, ⟨h, body, rfl, not_infix_of_breakOn hcut⟩, onLine_of_suffix hfront⟩
  · cases hcomment

theorem Meets.literal_explained {comments : Bool} (h : Meets source comments s)
    (hliteral : afterLiteral? s = some (.error u)) : Explained source u := by
  have hfront := h.suffix
  unfold afterLiteral? at hliteral
  split at hliteral
  · rename_i hstring
    have hread := Option.some.inj hliteral
    have hu : u = ⟨.stringLiteral, s⟩ := restOr_error hread
    subst hu
    refine ⟨s, ⟨⟨comments, h⟩, hstring, fun after hafter => ?_⟩, onLine_of_suffix hfront⟩
    cases hread.symm.trans hafter
  · split at hliteral
    · rename_i body _
      have hread := Option.some.inj hliteral
      cases hbody : afterCharBody body with
      | some after =>
          rw [hbody] at hread
          cases hread
      | none =>
          rw [hbody] at hread
          cases hread
          exact ⟨_, ⟨⟨comments, h⟩, body, rfl, hbody⟩, onLine_of_suffix hfront⟩
    · cases hliteral

theorem Starts.onLine {loop : Loop} (h : Starts source loop s) :
    OnLine source (loop.opener :: s) (lineOf source (loop.place s)) := by
  have hfront := h.suffix
  cases loop with
  | block | initializer => exact onLine_cons (by decide) hfront
  | attributes => exact onLine_of_suffix hfront

/-- What a loop reports is explained if what the bodies inside of it report is. -/
theorem Starts.explained_of {loop : Loop} (h : Starts source loop s)
    (herror : loop.after (loop.place s) 0 s = .error u)
    (hinner : loop = .initializer → ∀ body, Starts source .block body →
      afterBlock body = .error u → Explained source u) : Explained source u := by
  obtain ⟨depth, r, hreaches, hfails⟩ := Loop.exists_fails herror
  cases hfails with
  | ended =>
      refine ⟨loop.opener :: s, ?_, h.onLine⟩
      cases loop <;> exact ⟨s, rfl, h, depth, hreaches⟩
  | lexeme hlexeme =>
      have hmeets : Meets source loop.comments r := .turn h hreaches
      rcases Loop.lexeme?_eq_some.1 hlexeme with ⟨hcomments, hcomment⟩ | hliteral
      · rw [hcomments] at hmeets
        exact hmeets.comment_explained hcomment
      · exact hmeets.literal_explained hliteral
  | body hloop hbody =>
      subst hloop
      exact hinner rfl _ (.inner h hreaches) hbody

theorem Starts.explained {loop : Loop} (h : Starts source loop s)
    (herror : loop.after (loop.place s) 0 s = .error u) : Explained source u :=
  h.explained_of herror fun _ _ hstarts hblock => hstarts.explained_of hblock nofun

theorem ComesTo.pass_explained {st : State} {rest : List Char}
    (hcomes : ComesTo {} source st ('\x7b' :: rest)) (h : st.opening.pass rest = .error u) :
    Explained source u := by
  cases hopening : st.opening with
  | scope =>
      rw [hopening] at h
      cases h
  | body =>
      rw [hopening] at h
      have hscope : st.opening ≠ .scope := by
        rw [hopening]
        decide
      exact (Starts.body hcomes hscope).explained h
  | property =>
      rw [hopening, Opening.pass] at h
      have hscope : st.opening ≠ .scope := by
        rw [hopening]
        decide
      cases hbody : afterBlock rest with
      | error v =>
          rw [hbody] at h
          cases h
          exact (Starts.body hcomes hscope).explained hbody
      | ok after =>
          rw [hbody] at h
          have hinit : afterInitializer after = .error u := h
          unfold afterInitializer at hinit
          split at hinit
          · rename_i hassign
            exact (Starts.initializer hcomes hopening hbody hassign).explained hinit
          · cases hinit

/-- What a step reports is explained. -/
theorem ComesTo.explained {st : State} {c : Char} {rest : List Char}
    (hcomes : ComesTo {} source st (c :: rest)) (h : st.StopsAt c rest (.unclosed u)) :
    Explained source u := by
  cases h with
  | comment hcomment => exact Meets.comment_explained (.code hcomes) hcomment
  | literal hliteral => exact Meets.literal_explained (.code hcomes) hliteral
  | attributes hblank hsection =>
      exact (Starts.attributes hcomes hblank).explained hsection
  | passed hpass => exact hcomes.pass_explained hpass

end Explain

/-! ## The scopes that are open -/

/-- The braces that are open after a step, each as the text behind it.  Only those of namespaces
and types are counted. -/
def State.braces (st : State) (c : Char) (rest : List Char) (open_ : List (List Char)) :
    List (List Char) :=
  if c = '\x7b' ∧ OpensScope (trim st.statement.header) then rest :: open_
  else if c = '\x7d' then open_.tail
  else open_

/-- The braces of namespaces and types that are open at the end of a scan. -/
def openBraces (st : State) (s : List Char) (open_ : List (List Char)) : List (List Char) :=
  match s with
  | [] => open_
  | c :: rest =>
    match h : st.next c rest with
    | .error _ => open_
    | .ok (st', after) =>
      have := State.next_length h
      openBraces st' after (st.braces c rest open_)
termination_by s.length

theorem Act.scopes_run {act : Act} {st : State} (h : ¬act.Ends st) :
    (act.run st).scopes = st.scopes := by
  cases act with
  | comment s text =>
      have hself : st.readComment s text = (st.readComment s text).beside st :=
        st.readComment_beside st s text
      rw [Act.run, hself]
      rfl
  | openBrace =>
      rw [Act.run, State.braced_of_goes h]
      rfl
  | blank c =>
      have hself : st.blank c = (st.blank c).beside st := st.blank_beside st c
      rw [Act.run, hself]
      rfl
  | directive | write | attributes => rfl
  | semicolon | closeBrace => exact absurd trivial h

namespace State

theorem scopes_endStatement (st : State) : st.endStatement.scopes = st.scopes := rfl

theorem scopes_touchLine (st : State) : st.touchLine.scopes = st.scopes := rfl

theorem scopes_declareNamed (st : State) (kind : DeclKind) (name : Option (List Char)) :
    (st.declareNamed kind name).scopes = st.scopes := by
  cases name <;> rfl

theorem scopes_memberStatement (st : State) (header typeName : List Char) :
    (st.memberStatement header typeName).scopes = st.scopes := by
  unfold memberStatement
  simp only
  split
  · rfl
  · split
    · exact st.scopes_declareNamed .method _
    · split
      · exact st.scopes_declareNamed .property _
      · split <;> rfl

theorem scopes_semicolon (st : State) : st.semicolon.scopes = st.scopes := by
  unfold semicolon
  dsimp only [endStatement]
  split
  · rfl
  · split
    · rfl
    · rfl
    · exact st.scopes_memberStatement _ _
    · rfl

/-- A brace opens a scope if its header is that of one, -/
theorem scopes_braced_of_opens {st : State} (h : OpensScope (trim st.statement.header)) :
    ∃ scope, st.braced.scopes = scope :: st.scopes := by
  obtain ⟨hassign, hopens⟩ := h
  unfold braced
  dsimp only
  rw [hassign, Option.isSome_none, if_neg Bool.false_ne_true]
  split
  · rename_i name _
    exact ⟨.namespaceScope (trim name), rfl⟩
  · rename_i type hname htype
    rw [hname, htype] at hopens
    have hcontainer : type.kind.isContainer = true := hopens.resolve_left Bool.false_ne_true
    rw [if_pos hcontainer]
    exact ⟨.typeScope st.declarations.length type.name, rfl⟩
  all_goals
    rename_i hname htype _
    rw [hname, htype] at hopens
    rcases hopens with h | h <;> cases h

/-- and none otherwise. -/
theorem scopes_braced_of_not {st : State} (h : ¬OpensScope (trim st.statement.header)) :
    st.braced.scopes = st.scopes := by
  unfold OpensScope at h
  unfold braced
  dsimp only
  split
  · rfl
  rename_i hassign
  rw [Option.not_isSome_iff_eq_none] at hassign
  split
  · rename_i hname
    exact absurd ⟨hassign, .inl (by rw [hname]; rfl)⟩ h
  · rename_i type _ htype
    split
    · rename_i hcontainer
      exact absurd ⟨hassign, .inr (by rw [htype]; exact hcontainer)⟩ h
    · rfl
  · split
    · rw [scopes_touchLine, scopes_endStatement, scopes_declareNamed]
    · split
      · rfl
      · rw [scopes_touchLine, scopes_endStatement, scopes_declareNamed]
  · rfl

theorem next_semicolon (st : State) (s : List Char) : st.next ';' s = .ok (st.semicolon, s) :=
  next_eq_ok_iff.2 (CodeStep.semicolon.step (by decide))

theorem next_close {st st' : State} {s after : List Char}
    (h : st.next '\x7d' s = .ok (st', after)) : st'.scopes = st.scopes.tail := by
  cases (next_code_eq_ok_iff (afterComment?_of_ne (by decide) s) (by simp)
    (afterLiteral?_of_plain (by decide) (by decide) rfl s)).1 h with
  | closeBrace hscopes =>
      rw [hscopes]
      rfl
  | blank hblank => exact absurd hblank (by decide)
  | write _ hsign _ => exact absurd (by decide) hsign

/-- As many braces are open as the state holds scopes. -/
theorem length_braces {st st' : State} {c : Char} {rest after : List Char}
    {open_ : List (List Char)} (h : st.next c rest = .ok (st', after))
    (hopen : open_.length = st.scopes.length) :
    (st.braces c rest open_).length = st'.scopes.length := by
  unfold braces
  by_cases hbrace : c = '\x7b'
  · subst hbrace
    obtain ⟨-, rfl⟩ := next_brace_eq_ok.1 h
    by_cases hscope : OpensScope (trim st.statement.header)
    · obtain ⟨scope, hscopes⟩ := scopes_braced_of_opens hscope
      rw [if_pos ⟨rfl, hscope⟩, hscopes, List.length_cons, List.length_cons, hopen]
    · rw [if_neg (fun h => hscope h.2), if_neg (by decide), scopes_braced_of_not hscope, hopen]
  rw [if_neg fun h => hbrace h.1]
  by_cases hclose : c = '\x7d'
  · subst hclose
    rw [if_pos rfl, List.length_tail, hopen, next_close h, List.length_tail]
  rw [if_neg hclose, hopen]
  by_cases hend : c = ';'
  · subst hend
    rw [next_semicolon] at h
    cases h
    rw [scopes_semicolon]
  · obtain ⟨act, rfl, -, hends, -⟩ := next_act h
    have hgoes : ¬act.Ends st := fun h => by
      rcases hends.1 h with h | h | ⟨h, -⟩ <;> contradiction
    rw [Act.scopes_run hgoes]

end State

theorem length_openBraces {st last : State} {s : List Char} {open_ : List (List Char)}
    (hopen : open_.length = st.scopes.length) (h : ComesTo st s last []) :
    (openBraces st s open_).length = last.scopes.length := by
  fun_induction openBraces st s open_ with
  | case1 =>
      cases h
      exact hopen
  | case2 _ _ _ _ _ hnext =>
      cases h with
      | step hnext' => cases hnext.symm.trans hnext'
  | case3 _ _ _ _ _ _ hnext _ ih =>
      cases h with
      | step hnext' hcomes =>
          cases hnext.symm.trans hnext'
          exact ih (State.length_braces hnext hopen) hcomes

/-! ## Faults -/

/-- What a fault tells. -/
def Fault.Holds (source : List Char) : Fault → Prop
  -- No scope is open that the brace would close.
  | .unbalancedBrace line => ∃ st rest, ComesTo {} source st ('\x7d' :: rest) ∧ st.scopes = [] ∧
      OnLine source ('\x7d' :: rest) line
  | .unterminated what line => ∃ s, Opens source what s ∧ OnLine source s line
  | .unclosedScope count => ∃ st, ComesTo {} source st [] ∧ st.scopes.length = count ∧
      (openBraces {} source []).length = count ∧ 1 ≤ count

theorem fault_holds {source : List Char} {stop : Stop} (h : scanFrom {} source = .error stop) :
    (stop.fault source).Holds source := by
  rcases exists_of_scanFrom_error h with
    ⟨last, c, rest, hcomes, hstops⟩ | ⟨last, hcomes, hscopes, rfl⟩
  · cases stop with
    | unclosed u => exact hcomes.explained hstops
    | unbalanced left =>
        cases hstops with
        | unbalanced hscopes =>
            exact ⟨last, _, hcomes, hscopes, onLine_cons (by decide) hcomes.suffix⟩
    | openScopes count => cases hstops
  · exact ⟨last, hcomes, rfl, length_openBraces rfl hcomes, List.length_pos_iff.2 hscopes⟩

namespace Reading

/-- The result, and all that the cursor has been, the latest first. -/
def ended {α : Type} : EStateM.Result Halt Track α → Except Halt α × List Cursor
  | .ok a t => (.ok a, t.all)
  | .error e t => (.error e, t.all)

theorem exists_ended (source : String) : ∃ (t : Track) (r : List Char), t.At source.toList r ∧
    ended (run source.toList {}) = ((scan source).mapError .fault, t.all) := by
  have hrun := @reads_run source.toList
  rw [toEnd] at hrun
  rw [scan]
  cases h : scanFrom {} source.toList with
  | ok ds =>
      rw [h] at hrun
      obtain ⟨t, hrun, ht⟩ := hrun {} (.start _)
      exact ⟨t, [], ht, by rw [hrun]; rfl⟩
  | error stop =>
      rw [h] at hrun
      obtain ⟨t, hrun, r, ht⟩ := hrun {} (.start _)
      exact ⟨t, r, ht, by rw [hrun]; rfl⟩

end Reading

/-- For every source text a scan with a cursor ends as one without: no slice fails, and no turn of a
loop stays where it is.  All the way the cursor stands behind whole characters and has counted the
newlines among them, and it only moves forward.  So what a fault tells holds. -/
theorem scan_positions (source : String) :
    ∃ cursors, Reading.ended (Reading.run source.toList {}) =
        ((scan source).mapError .fault, cursors) ∧
      (∀ k ∈ cursors, ∃ front rest, source.toList = front ++ rest ∧ k.pos = byteLength front ∧
        k.line = 1 + front.count '\n') ∧
      cursors.Pairwise (fun later earlier => earlier.pos < later.pos) ∧
      ∀ fault, scan source = .error fault → fault.Holds source.toList := by
  obtain ⟨t, r, ht, hended⟩ := Reading.exists_ended source
  refine ⟨t.all, hended, fun k hk => ?_, ht.forward, fun fault hfault => ?_⟩
  · obtain ⟨rest, front, hat⟩ := ht.all k hk
    exact ⟨front, rest, hat⟩
  · rw [scan] at hfault
    cases h : scanFrom {} source.toList with
    | ok ds =>
        rw [h] at hfault
        cases hfault
    | error stop =>
        rw [h] at hfault
        cases hfault
        exact fault_holds h

end Declaration
end DocPages
