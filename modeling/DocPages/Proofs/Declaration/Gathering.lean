/-
How the text of a member becomes its header.

Blanks are squeezed, comments are left out, and literals and bodies are emptied.  What a
member gives is then told from its header alone: `gives_semicolon` and `gives_body`.
-/
import DocPages.Proofs.Declaration.Acts

namespace DocPages
namespace Declaration

open Text

/-! ## Gathered text -/

/-- What a text adds to a header that is not blank.  `after` tells that the header ends with a
space, and `braced` that bodies are part of it, as they are behind an assignment. -/
inductive Gathers (braced : Bool) : Bool → List Char → List Char → Prop
  | nil {after : Bool} : Gathers braced after [] []
  | space {c : Char} {s t : List Char} :
      isBlank c = true → Gathers braced true s t → Gathers braced false (c :: s) (' ' :: t)
  | more {c : Char} {s t : List Char} :
      isBlank c = true → Gathers braced true s t → Gathers braced true (c :: s) t
  | code {after : Bool} {c : Char} {s t : List Char} :
      isBlank c = false → c ∉ "/'\"@$\x7b\x7d;".toList → Gathers braced false s t →
      Gathers braced after (c :: s) (c :: t)
  | slash {after : Bool} {s t : List Char} :
      Stops (fun c => c == '/' || c == '*') s → Gathers braced false s t →
      Gathers braced after ('/' :: s) ('/' :: t)
  | mark {after : Bool} {c : Char} {s t : List Char} :
      isStringMark c = true → NoQuote s → Stops isStringMark s → Gathers braced false s t →
      Gathers braced after (c :: s) (c :: t)
  | lineComment {after : Bool} {u s t : List Char} :
      '\n' ∉ u → Gathers braced after ('\n' :: s) t →
      Gathers braced after ('/' :: '/' :: (u ++ '\n' :: s)) t
  | blockComment {after : Bool} {u s t : List Char} :
      ¬ "*/".toList <:+: u → Gathers braced after s t →
      Gathers braced after ('/' :: '*' :: (u ++ '*' :: '/' :: s)) t
  | string {after : Bool} {u s t : List Char} :
      StringLiteral u → NoQuote s → Gathers braced false s t →
      Gathers braced after (u ++ s) (List.replicate (surplus u) '$' ++ "\"\"".toList ++ t)
  | char {after : Bool} {u s t : List Char} :
      Quoted '\'' u → Gathers braced false s t →
      Gathers braced after ('\'' :: (u ++ '\'' :: s)) ("''".toList ++ t)
  | body {after : Bool} {u s t : List Char} :
      braced = true → LexicallyClosed u → Gathers braced true s t →
      Gathers braced after ('\x7b' :: (u ++ '\x7d' :: s)) ("\x7b\x7d ".toList ++ t)

/-- Whether a header that is continued by a text ends with a space. -/
def endsBlank (after : Bool) (t : List Char) : Bool := (t.getLast?.map (· == ' ')).getD after

/-- A text that does not go on with a comment or a literal that was begun. -/
abbrev Seam (s : List Char) : Prop :=
  Stops (fun c => c == '/' || c == '*' || c == '"' || isStringMark c) s

namespace Seam

variable {s : List Char} (h : Seam s)
include h

theorem comment : Stops (fun c => c == '/' || c == '*') s :=
  h.mono fun c hc => by simp only [hc, Bool.true_or]

theorem noQuote : NoQuote s :=
  h.mono fun c hc => by simp only [hc, Bool.or_true, Bool.true_or]

theorem mark : Stops isStringMark s :=
  h.mono fun c hc => by simp only [hc, Bool.or_true]

end Seam

/-! ## Reading on -/

namespace State

/-- The state with more of its header read. -/
def gathered (st : State) (text : List Char) (commentOpen lineUsed : Bool) : State :=
  { st with
    statement := { st.statement with header := st.statement.header ++ text, commentOpen }
    lineUsed }

theorem gathered_gathered (st : State) (a b : List Char) (o u o' u' : Bool) :
    (st.gathered a o u).gathered b o' u' = st.gathered (a ++ b) o' u' := by
  simp only [gathered, List.append_assoc]

theorem header_gathered {st : State} (h : st.statement.header = []) (text : List Char) (o u : Bool) :
    (st.gathered text o u).statement.header = text := by
  simp only [gathered, h, List.nil_append]

theorem headerBlank_gathered {st : State} (h : st.headerBlank = false) (text : List Char)
    (o u : Bool) : (st.gathered text o u).headerBlank = false := by
  simp only [headerBlank, gathered, allBlank, List.all_append] at h ⊢
  rw [h, Bool.false_and]

theorem write_eq_gathered (st : State) (text : List Char) :
    st.write text = st.gathered text st.statement.commentOpen true := rfl

/-- A comment in a header leaves it as it is. -/
theorem readComment_header {st : State} (h : st.headerBlank = false) (s text : List Char) :
    ∃ o, st.readComment s text = st.gathered [] o true := by
  have hskip : ∀ o u, st.gathered [] o u =
      { st with statement := { st.statement with commentOpen := o }, lineUsed := u } := by
    intro o u
    simp only [gathered, List.append_nil]
  have haccept : st.acceptsComment = false := by rw [acceptsComment, h, Bool.false_and]
  rw [readComment_eq]
  simp only [hskip]
  split
  · exact ⟨_, rfl⟩
  · split
    · rw [lineComment, haccept]
      exact ⟨_, rfl⟩
    · split
      · exact ⟨_, rfl⟩
      · split
        · rw [blockComment, haccept]
          exact ⟨_, rfl⟩
        · exact ⟨_, rfl⟩

theorem blank_header {st : State} (h : st.headerBlank = false) (c : Char) :
    ∃ o, st.blank c =
      st.gathered (if st.statement.header.getLast? == some ' ' then [] else [' ']) o
        (c != '\n' && st.lineUsed) := by
  have hempty : st.statement.header.isEmpty = false := by
    rw [List.isEmpty_eq_false_iff]
    intro e
    rw [headerBlank, e] at h
    cases h
  -- The comment and the line change apart from the header.
  obtain ⟨o, hline⟩ : ∃ o,
      (if c = '\n' then { (if st.lineUsed then st else st.closeComment) with lineUsed := false }
        else st) = st.gathered [] o (c != '\n' && st.lineUsed) := by
    simp only [gathered, List.append_nil]
    split
    · rename_i hline
      rw [hline]
      split <;> exact ⟨_, rfl⟩
    · rename_i hline
      rw [bne_iff_ne.2 hline]
      exact ⟨_, rfl⟩
  refine ⟨o, ?_⟩
  have hheader : (st.gathered [] o (c != '\n' && st.lineUsed)).statement.header =
      st.statement.header := List.append_nil _
  rw [blank, hline]
  simp only [hheader, hempty, Bool.false_or]
  split
  · rfl
  · simp only [setHeader, gathered, List.append_nil]

end State

section Step

variable {st : State} (hst : st.headerBlank = false) {c : Char} {rest : List Char}
include hst

theorem scanFrom_comment {after : List Char} (h : afterComment? (c :: rest) = some (.ok after)) :
    ∃ o u, scanFrom st (c :: rest) = scanFrom (st.gathered [] o u) after := by
  obtain ⟨o, hread⟩ := State.readComment_header hst (c :: rest)
    ((c :: rest).take ((c :: rest).length - after.length))
  refine ⟨o, true, ?_⟩
  rw [scanFrom_next (State.next_comment h), hread]

theorem scanFrom_codeChar (hcode : c ∉ "\x7b\x7d;".toList) (hblank : isBlank c = false)
    (hc : afterComment? (c :: rest) = none) (hl : afterLiteral? (c :: rest) = none) :
    scanFrom st (c :: rest) = scanFrom (st.write [c]) rest := by
  have hash : ¬(c = '#' ∧ st.headerBlank = true) := by
    rw [hst]
    simp
  exact scanFrom_step (.code hc hash hl (.write hblank hcode fun _ => hst))

/-- A string is emptied, and what is not read with it stays. -/
theorem scanFrom_stringLiteral {u r : List Char} (h : StringLiteral u) (hr : NoQuote r) :
    scanFrom st (u ++ r) =
      scanFrom (st.write (List.replicate (surplus u) '$' ++ "\"\"".toList)) r := by
  obtain ⟨v, hu, hhead, hread, hnone⟩ := h.exists_read
  rw [hu, List.append_assoc, ← hu]
  generalize surplus u = n at hnone
  clear hu h
  induction n generalizing st with
  | zero =>
      cases v with
      | nil => cases hhead
      | cons c v =>
          have hquote : c ≠ '\'' := by simpa using hhead
          refine (scanFrom_literal (hread r hr)).trans ?_
          rw [if_neg hquote]
          rfl
  | succ n ih =>
      have hdollar := hnone n (Nat.lt_succ_self n) r
      rw [List.replicate_succ, List.cons_append] at hdollar ⊢
      have hst' : (st.write ['$']).headerBlank = false := State.headerBlank_gathered hst _ _ _
      rw [scanFrom_codeChar hst (by decide) (by decide) (afterComment?_of_ne (by decide) _) hdollar,
        ih hst' fun k hk r => hnone k (Nat.lt_succ_of_lt hk) r]
      simp only [State.write, State.setHeader, List.append_assoc, List.cons_append,
        List.nil_append]

end Step

/-- Text is gathered: the header holds more than blanks, and `after` and `braced` say what they
are to say of it, the latter where `coming` has a body. -/
structure State.Gathering (st : State) (braced after : Bool) (coming : List Char) : Prop where
  headerBlank : st.headerBlank = false
  after : (st.statement.header.getLast? == some ' ') = after
  assigned : braced = true → ∀ text, text ++ "\x7b\x7d ".toList <+: coming →
    (findAssignment (trim (st.statement.header ++ text))).isSome = true

theorem State.Gathering.gathered {st : State} {braced after after' : Bool}
    {text coming : List Char} (h : st.Gathering braced after (text ++ coming))
    (hafter : endsBlank after text = after') (o u : Bool) :
    (st.gathered text o u).Gathering braced after' coming where
  headerBlank := headerBlank_gathered h.headerBlank text o u
  after := by
    rw [← hafter, endsBlank, ← h.after]
    simp only [State.gathered, List.getLast?_append]
    cases text.getLast? <;> rfl
  assigned hbraced more hmore := by
    have := h.assigned hbraced (text ++ more)
      (List.append_assoc text .. ▸ (List.prefix_append_right_inj text).2 hmore)
    rwa [← List.append_assoc] at this

/-- A step that gathers, and then the rest of the text. -/
theorem gathers_step {st : State} {braced after after' : Bool} {s a t r : List Char}
    (hst : st.Gathering braced after (a ++ t)) (hafter : endsBlank after a = after')
    (hstep : ∃ o u, scanFrom st s = scanFrom (st.gathered a o u) r)
    {r' : List Char} (hrest : ∀ {st : State}, st.Gathering braced after' t →
      ∃ o u, scanFrom st r = scanFrom (st.gathered t o u) r') :
    ∃ o u, scanFrom st s = scanFrom (st.gathered (a ++ t) o u) r' := by
  obtain ⟨o, u, hstep⟩ := hstep
  obtain ⟨o', u', hrest⟩ := hrest (hst.gathered hafter o u)
  exact ⟨o', u', by rw [hstep, hrest, State.gathered_gathered]⟩

/-- A run of gathered text takes the header on by what it adds. -/
theorem Gathers.scanFrom_append {braced after : Bool} {s t : List Char}
    (h : Gathers braced after s t) {st : State} (hst : st.Gathering braced after t) {r : List Char}
    (hr : Seam r) : ∃ o u, scanFrom st (s ++ r) = scanFrom (st.gathered t o u) r := by
  induction h generalizing st with
  | nil =>
      refine ⟨st.statement.commentOpen, st.lineUsed, ?_⟩
      simp only [State.gathered, List.append_nil, List.nil_append]
  | @space c s t hblank _ ih =>
      refine gathers_step (a := [' ']) hst rfl ?_ ih
      obtain ⟨o, heq⟩ := State.blank_header hst.headerBlank c
      rw [hst.after] at heq
      exact ⟨o, _, by rw [List.cons_append, scanFrom_blank hblank, heq]; rfl⟩
  | @more c s t hblank _ ih =>
      refine gathers_step (a := []) hst rfl ?_ ih
      obtain ⟨o, heq⟩ := State.blank_header hst.headerBlank c
      rw [hst.after] at heq
      exact ⟨o, _, by rw [List.cons_append, scanFrom_blank hblank, heq]; rfl⟩
  | @code after c s t hblank hcode _ ih =>
      have hspace : endsBlank after [c] = false := by
        have hne : c ≠ ' ' := by
          rintro rfl
          cases hblank
        simp [endsBlank, hne]
      refine gathers_step (a := [c]) hst hspace ⟨st.statement.commentOpen, true, ?_⟩ ih
      simp only [String.reduceToList, List.mem_cons, List.not_mem_nil, or_false, not_or] at hcode
      have hm : isStringMark c = false := by simp [isStringMark, hcode]
      exact scanFrom_codeChar hst.headerBlank (by simp [hcode]) hblank
        (afterComment?_of_ne hcode.1 _) (afterLiteral?_of_plain hcode.2.1 hcode.2.2.1 hm _)
  | slash hs _ ih =>
      refine gathers_step (a := ['/']) hst rfl ⟨st.statement.commentOpen, true, ?_⟩ ih
      exact scanFrom_codeChar hst.headerBlank (by decide) (by decide)
        (afterComment?_eq_none fun _ => stops_append hs hr.comment)
        (afterLiteral?_of_plain (by decide) (by decide) rfl _)
  | @mark after c s t hm hq hs _ ih =>
      have hc : ∀ d, isStringMark d = false → c ≠ d := by
        rintro d hd rfl
        rw [hm] at hd
        cases hd
      have hspace : endsBlank after [c] = false := by simp [endsBlank, hc ' ' rfl]
      refine gathers_step (a := [c]) hst hspace ⟨st.statement.commentOpen, true, ?_⟩ ih
      refine scanFrom_codeChar hst.headerBlank ?_ ?_ (afterComment?_of_ne (hc _ rfl) _)
        (afterLiteral?_eq_none (hc _ rfl)
          (atString_mark hm (stops_append hq hr.noQuote) (stops_append hs hr.mark)))
      · simp [hc '\x7b' rfl, hc '\x7d' rfl, hc ';' rfl]
      · rw [isStringMark, Bool.or_eq_true, beq_iff_eq, beq_iff_eq] at hm
        rcases hm with rfl | rfl <;> decide
  | lineComment hline _ ih =>
      refine gathers_step (a := []) hst rfl ?_ ih
      simp only [List.cons_append, List.append_assoc]
      exact scanFrom_comment hst.headerBlank (afterComment?_line hline _)
  | blockComment hend _ ih =>
      refine gathers_step (a := []) hst rfl ?_ ih
      simp only [List.cons_append, List.append_assoc]
      exact scanFrom_comment hst.headerBlank (afterComment?_block hend _)
  | @string after u s t hu hq _ ih =>
      have hspace : endsBlank after (List.replicate (surplus u) '$' ++ "\"\"".toList) = false := by
        simp [endsBlank]
      refine gathers_step hst hspace ⟨st.statement.commentOpen, true, ?_⟩ ih
      rw [List.append_assoc]
      exact scanFrom_stringLiteral hst.headerBlank hu (stops_append hq hr.noQuote)
  | char hu _ ih =>
      refine gathers_step (a := "''".toList) hst rfl ⟨st.statement.commentOpen, true, ?_⟩ ih
      simp only [List.cons_append, List.append_assoc]
      exact scanFrom_literal (afterLiteral?_char hu _)
  | @body after u s t hbraced hu _ ih =>
      refine gathers_step (a := "\x7b\x7d ".toList) hst rfl
        ⟨st.statement.commentOpen, true, ?_⟩ ih
      have hfound := hst.assigned hbraced [] (List.prefix_append _ t)
      rw [List.append_nil] at hfound
      have hopen : st.opening = .body := by rw [State.opening, if_pos hfound]
      have hbrace : st.openBrace (u ++ '\x7d' :: (s ++ r)) =
          .ok (st.write "\x7b\x7d ".toList, s ++ r) := by
        rw [State.openBrace_eq, hopen, Opening.pass, afterBlock_closed hu, State.braced, if_pos hfound]
        rfl
      simp only [List.cons_append, List.append_assoc]
      exact scanFrom_brace hbrace

/-! ## Headers of members -/

/-- At the start of a statement, a text is gathered to a header. -/
def Gathered (text header : List Char) : Prop :=
  allBlank header = false ∧ ∀ (st : State) (r : List Char), st.statement.header = [] → Seam r →
    ∃ o u, scanFrom st (text ++ r) = scanFrom (st.gathered header o u) r

theorem gathered_start {c : Char} {s t : List Char} (hblank : isBlank c = false)
    (hc : c ∉ "/'\"@$\x7b\x7d;#[".toList) (h : Gathers false false s t) :
    Gathered (c :: s) (c :: t) := by
  have hfilled : allBlank (c :: t) = false := by
    rw [allBlank, List.all_cons, hblank, Bool.false_and]
  refine ⟨hfilled, fun st r hst hr => ?_⟩
  have hwrite : scanFrom st (c :: (s ++ r)) = scanFrom (st.write [c]) (s ++ r) := by
    simp only [String.reduceToList, List.mem_cons, List.not_mem_nil, or_false, not_or] at hc
    have hsign : st.CodeStep c (s ++ r) (st.write [c]) (s ++ r) :=
      .write hblank (by simp [hc]) fun hopen => absurd hopen (by simp [hc])
    exact scanFrom_step (hsign.step (by simp [hc]))
  have hgathering : (st.write [c]).Gathering false false t := by
    refine ⟨?_, ?_, fun h => Bool.noConfusion h⟩
    · simp [State.headerBlank, State.write, State.setHeader, hst, allBlank, hblank]
    · have hne : c ≠ ' ' := by
        rintro rfl
        cases hblank
      simp [State.write, State.setHeader, hst, hne]
  obtain ⟨o, u, hread⟩ := h.scanFrom_append hgathering hr
  refine ⟨o, u, ?_⟩
  rw [List.cons_append, hwrite, hread, State.write_eq_gathered, State.gathered_gathered]
  rfl

theorem Gathered.append {text header s t : List Char} {braced : Bool} (h : Gathered text header)
    (hs : Gathers braced (endsBlank false header) s t) (hseam : Seam s)
    (hassigned : braced = true →
      ∀ more, more ++ "\x7b\x7d ".toList <+: t →
        (findAssignment (trim (header ++ more))).isSome = true) :
    Gathered (text ++ s) (header ++ t) := by
  refine ⟨allBlank_append h.1 t, fun st r hst hr => ?_⟩
  obtain ⟨o, u, hread⟩ := h.2 st (s ++ r) hst (stops_append hseam hr)
  have hgathering : (st.gathered header o u).Gathering braced (endsBlank false header) t := by
    refine ⟨?_, ?_, ?_⟩
    · rw [State.headerBlank, State.header_gathered hst]
      exact h.1
    · rw [State.header_gathered hst, endsBlank]
      cases header.getLast? <;> rfl
    · rw [State.header_gathered hst]
      exact hassigned
  obtain ⟨o', u', hread'⟩ := hs.scanFrom_append hgathering hr
  exact ⟨o', u', by rw [List.append_assoc, hread, hread', State.gathered_gathered]⟩

/-- A header that declares a member, if anything. -/
structure MemberHeader (h : List Char) : Prop where
  filled : h ≠ []
  notNamespace : stripStart? "namespace ".toList h = none
  noType : readTypeHeader h = none

/-- What a header declares at a semicolon. -/
def statementMade (owner h : List Char) : List (List (List Char) × DeclKind) :=
  if hasWord "event" h || hasWord "delegate" h then []
  else
    let (head, arrow) := (findAssignment h).getD (h, false)
    if head.contains '(' then (methodName head owner).toList.map fun name => ([name], .method)
    else if arrow then (propertyName head).toList.map fun name => ([name], .property)
    else if (fieldNames h).isEmpty then [] else [(fieldNames h, .field)]

/-- What a header declares at a body. -/
def bodyMade (owner h : List Char) : List (List (List Char) × DeclKind) :=
  if h.contains '(' then (methodName h owner).toList.map fun name => ([name], .method)
  else (propertyName h).toList.map fun name => ([name], .property)

/-- A state after the statement that gave these declarations. -/
def State.given (st : State) (given : List (List (List Char) × DeclKind)) (used : Bool) : State :=
  { (given.foldl (fun st d => st.declare d.1 d.2) st).endStatement with lineUsed := used }

/-- What a text gives directly in the body of a type that is named `owner`: these declarations
and nothing else, whatever was read before it and whatever stands behind it.  Behind a property
an assignment would be a part of it. -/
def Gives (owner text : List Char) (given : List (List (List Char) × DeclKind)) : Prop :=
  ∀ (st : State) (index : Nat) (r : List Char), st.enclosingType = some (index, owner) →
    st.statement.header = [] → atAssignment r = false →
    ∃ used, scanFrom st (text ++ r) = scanFrom (st.given given used) r

theorem declareNamed_gathered (st : State) (header : List Char) (o u : Bool) (kind : DeclKind)
    (name : Option (List Char)) :
    ((st.gathered header o u).declareNamed kind name).endStatement =
      st.given (name.toList.map fun name => ([name], kind)) u := by
  cases name <;> rfl

theorem memberStatement_gathered (st : State) (header : List Char) (o u : Bool)
    (h owner : List Char) :
    ((st.gathered header o u).memberStatement h owner).endStatement =
      st.given (statementMade owner h) u := by
  unfold State.memberStatement statementMade
  simp only
  split
  · rfl
  · split
    · exact declareNamed_gathered ..
    · split
      · exact declareNamed_gathered ..
      · split <;> rfl

section Member

variable {owner text header : List Char} (hg : Gathered text header)
  (hh : MemberHeader (trim header))
include hg hh

theorem gives_semicolon (hdirective : ((words (trim header)).head?.any fun word =>
      ["using", "global", "extern"].contains (String.ofList word)) = false) :
    Gives owner (text ++ [';']) (statementMade owner (trim header)) := by
  intro st index r htype hst _
  obtain ⟨o, u, hread⟩ := hg.2 st (';' :: r) hst (stops_cons (by decide) r)
  have hheader := State.header_gathered hst header o u
  have hskip : ((trim header).isEmpty || (words (trim header)).head?.any fun word =>
      ["using", "global", "extern"].contains (String.ofList word)) = false := by
    rw [hdirective, List.isEmpty_eq_false_iff.2 hh.filled, Bool.or_false]
  have hend : (st.gathered header o u).semicolon =
      st.given (statementMade owner (trim header)) u := by
    have htype' : (st.gathered header o u).enclosingType = some (index, owner) := htype
    simp only [State.semicolon, hheader, hskip, Bool.false_eq_true, if_false, hh.notNamespace,
      hh.noType, htype']
    exact memberStatement_gathered ..
  refine ⟨u, ?_⟩
  rw [List.append_assoc, List.singleton_append, hread, scanFrom_semicolon, hend]

/-- A statement that declares nothing may also be taken for a directive. -/
theorem gives_nothing (hmade : statementMade owner (trim header) = []) :
    Gives owner (text ++ [';']) [] := by
  cases hdirective : (words (trim header)).head?.any fun word =>
      ["using", "global", "extern"].contains (String.ofList word) with
  | false => exact hmade ▸ gives_semicolon hg hh hdirective
  | true =>
      intro st index r _ hst _
      obtain ⟨o, u, hread⟩ := hg.2 st (';' :: r) hst (stops_cons (by decide) r)
      have hheader := State.header_gathered hst header o u
      have hend : (st.gathered header o u).semicolon = st.given [] u := by
        simp only [State.semicolon, hheader, hdirective, Bool.or_true, if_true]
        rfl
      refine ⟨u, ?_⟩
      rw [List.append_assoc, List.singleton_append, hread, scanFrom_semicolon, hend]

theorem gives_body (hassign : findAssignment (trim header) = none) {body : List Char}
    (hbody : LexicallyClosed body) :
    Gives owner (text ++ '\x7b' :: (body ++ ['\x7d'])) (bodyMade owner (trim header)) := by
  intro st index r htype hst hr
  obtain ⟨o, u, hread⟩ := hg.2 st ('\x7b' :: (body ++ '\x7d' :: r)) hst (stops_cons (by decide) _)
  have hheader := State.header_gathered hst header o u
  have htype' : (st.gathered header o u).enclosingType = some (index, owner) := htype
  have hpass : (st.gathered header o u).opening.pass (body ++ '\x7d' :: r) = .ok r := by
    simp only [State.opening, hheader, hassign, hh.notNamespace, hh.noType, htype',
      List.isEmpty_eq_false_iff.2 hh.filled, Option.isSome_none, Bool.false_eq_true, if_false]
    split
    · exact afterBlock_closed hbody r
    · rw [Opening.pass, afterBlock_closed hbody r]
      simp only [Except.bind, afterInitializer, hr, Bool.false_eq_true, if_false]
  have hbraced : (st.gathered header o u).braced = st.given (bodyMade owner (trim header)) true := by
    simp only [State.braced, hheader, hassign, hh.notNamespace, hh.noType, htype',
      List.isEmpty_eq_false_iff.2 hh.filled, Option.isSome_none, Bool.false_eq_true, if_false]
    rw [bodyMade]
    split
    · rw [declareNamed_gathered]
      rfl
    · rw [declareNamed_gathered]
      rfl
  refine ⟨true, ?_⟩
  have htext : text ++ '\x7b' :: (body ++ ['\x7d']) ++ r = text ++ '\x7b' :: (body ++ '\x7d' :: r) := by
    simp only [List.append_assoc, List.cons_append, List.nil_append]
  rw [htext, hread, scanFrom_brace, ← hbraced]
  rw [State.openBrace_eq, hpass]
  rfl

end Member

/-! ## A text gives one list -/

theorem declare_eq_onto {st : State} (hcomment : st.statement.comment = none)
    (hattributes : st.statement.attributes = []) (names : List (List Char)) (kind : DeclKind) :
    st.declare names kind = st.onto (st.declarations ++ [st.made names kind []]) := by
  obtain ⟨ds, scopes, fileNamespace, ⟨header, comment, commentOpen, attributed, attributes⟩, used⟩ := st
  cases hcomment
  cases hattributes
  rfl

theorem given_eq {st : State} (hcomment : st.statement.comment = none)
    (hattributes : st.statement.attributes = [])
    (given : List (List (List Char) × DeclKind)) (used : Bool) :
    st.given given used =
      { (st.onto (st.declarations ++ given.map fun d => st.made d.1 d.2 [])).endStatement with
        lineUsed := used } := by
  have hfold : given.foldl (fun st d => st.declare d.1 d.2) st =
      st.onto (st.declarations ++ given.map fun d => st.made d.1 d.2 []) := by
    induction given generalizing st with
    | nil =>
        rw [List.map_nil, List.append_nil]
        rfl
    | cons d given ih =>
        have hnext : (st.onto (st.declarations ++ [st.made d.1 d.2 []])).statement.comment = none :=
          hcomment
        rw [List.foldl_cons, declare_eq_onto hcomment hattributes, ih hnext hattributes,
          List.map_cons]
        exact congrArg st.onto (List.append_assoc st.declarations [st.made d.1 d.2 []] _)
  rw [State.given, hfold]

/-- A class with nothing in it so far. -/
def inType (owner : List Char) : State := { scopes := [.typeScope 0 owner] }

theorem scanFrom_inType {owner : List Char} (given : List (List (List Char) × DeclKind))
    (used : Bool) :
    scanFrom ((inType owner).given given used) ['\x7d'] =
      .ok (given.map fun d => (inType owner).made d.1 d.2 []) := by
  have hscopes : ((inType owner).given given used).scopes = .typeScope 0 owner :: [] := by
    rw [given_eq rfl rfl]
    rfl
  rw [scanFrom_close hscopes, given_eq rfl rfl, scanFrom]
  rfl

theorem Gives.unique {owner text : List Char} {a b : List (List (List Char) × DeclKind)}
    (ha : Gives owner text a) (hb : Gives owner text b) : a = b := by
  obtain ⟨used, ha⟩ := ha (inType owner) 0 ['\x7d'] rfl rfl rfl
  obtain ⟨used', hb⟩ := hb (inType owner) 0 ['\x7d'] rfl rfl rfl
  rw [ha, scanFrom_inType, scanFrom_inType, Except.ok.injEq] at hb
  refine List.map_injective_iff.2 ?_ hb
  intro d e heq
  have hnames : d.1.map String.ofList = e.1.map String.ofList := congrArg Declaration.names heq
  have hkind : d.2 = e.2 := congrArg Declaration.kind heq
  exact Prod.ext (List.map_injective_iff.2 (fun _ _ => String.ofList_inj.1) hnames) hkind

/-- A text gives what it was found to give and nothing else. -/
theorem Gives.iff_eq {owner text : List Char} {a b : List (List (List Char) × DeclKind)}
    (ha : Gives owner text a) : Gives owner text b ↔ a = b :=
  ⟨ha.unique, fun e => e ▸ ha⟩

end Declaration
end DocPages
