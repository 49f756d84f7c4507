/-
The lines in front of a declaration: comments, directives, blank lines and attribute sections.

The declaration takes the first comment in front of the first section and the attributes of all
sections, and nothing of the lines is left for another declaration: `scan_preface`.
-/
import DocPages.Proofs.Declaration.Gathering
import DocPages.Proofs.Declaration.Sections

namespace DocPages
namespace Declaration

open Text

/-! ## What the lines say -/

/-- What a line in front of a declaration has to say.  Comments come with their marks. -/
inductive PrefaceLine where
  | docLine (comment : List Char)
  | docBlock (comment : List Char)
  /-- A blank line or a comment that documents nothing. -/
  | nothing
  | directive
  | attributes (inner : List Char)

/-- The documentation lines that follow each other, directives in between apart. -/
def docLines : List PrefaceLine → List (List Char)
  | .docLine comment :: lines => comment :: docLines lines
  | .directive :: lines => docLines lines
  | _ => []

/-- The first comment in front of the first section. -/
def firstComment : List PrefaceLine → List Char
  | .docLine comment :: lines => List.intercalate ['\n'] (comment :: docLines lines)
  | .docBlock comment :: _ => comment
  | .nothing :: lines | .directive :: lines => firstComment lines
  | .attributes _ :: _ | [] => []

/-- The attributes of all sections in order. -/
def sectionAttributes (lines : List PrefaceLine) : List Attribute :=
  lines.flatMap fun
    | .attributes inner => readAttributes inner
    | _ => []

/-! ## How they are written -/

/-- Blanks on one line. -/
def IsGap (gap : List Char) : Prop := allBlank gap = true ∧ '\n' ∉ gap

/-- The text of a line, its indentation and its end apart.  Block comments and sections may have
several lines. -/
inductive PrefaceLine.Written : PrefaceLine → List Char → Prop
  | docLine {t : List Char} :
      '\n' ∉ t → Stops (· == '/') t → Written (.docLine ("///".toList ++ t)) ("///".toList ++ t)
  | lineComment {t : List Char} :
      '\n' ∉ t → Stops (· == '/') t ∨ "//".toList <+: t → Written .nothing ("//".toList ++ t)
  | docBlock {t gap : List Char} :
      ¬ "*/".toList <:+: '*' :: t → IsGap gap →
      Written (.docBlock ("/**".toList ++ t ++ "*/".toList)) ("/**".toList ++ t ++ "*/".toList ++ gap)
  | blockComment {t gap : List Char} :
      ¬ "*/".toList <:+: t → Stops (· == '*') t → IsGap gap →
      Written .nothing ("/*".toList ++ t ++ "*/".toList ++ gap)
  | blank : Written .nothing []
  | directive {t : List Char} : '\n' ∉ t → Written .directive ('#' :: t)
  | attributes {inner gap : List Char} :
      SectionText inner → IsGap gap → Written (.attributes inner) ('[' :: (inner ++ ']' :: gap))

/-- Lines and what they have to say.  At the end stands the indentation of what follows. -/
inductive Preface : List PrefaceLine → List Char → Prop
  | indent {gap : List Char} : IsGap gap → Preface [] gap
  | line {line : PrefaceLine} {lines : List PrefaceLine} {gap text rest : List Char} :
      IsGap gap → line.Written text → Preface lines rest →
      Preface (line :: lines) (gap ++ (text ++ '\n' :: rest))

/-- A text that starts with a character of a header. -/
def StartsHeader (s : List Char) : Prop :=
  ∃ c rest, s = c :: rest ∧ isBlank c = false ∧ c ∉ "#[\x7b;\x7d".toList ∧
    afterComment? s = none ∧ afterLiteral? s = none

/-! ## What is kept of them -/

/-- The statement after a line in front of its header. -/
def Statement.led (s : Statement) : PrefaceLine → Statement
  | .docLine comment =>
    if s.attributed then s
    else
      match s.comment with
      | none => { s with comment := some comment, commentOpen := true }
      | some before =>
        if s.commentOpen then { s with comment := some (before ++ '\n' :: comment) } else s
  | .docBlock comment =>
    { s with
      comment := if s.attributed then s.comment else s.comment <|> some comment
      commentOpen := false }
  | .nothing => { s with commentOpen := false }
  | .directive => s
  | .attributes inner =>
    { s with
      attributes := s.attributes ++ readAttributes inner
      attributed := true
      commentOpen := false }

namespace Statement

theorem header_led (s : Statement) (line : PrefaceLine) : (s.led line).header = s.header := by
  cases line with
  | docLine comment =>
      unfold led
      dsimp only
      split
      · rfl
      · split
        · rfl
        · split <;> rfl
  | docBlock | nothing | directive | attributes => rfl

theorem attributes_led (s : Statement) (line : PrefaceLine) :
    (s.led line).attributes = s.attributes ++ sectionAttributes [line] := by
  cases line with
  | docLine comment =>
      have hsame : (s.led (.docLine comment)).attributes = s.attributes := by
        unfold led
        dsimp only
        split
        · rfl
        · split
          · rfl
          · split <;> rfl
      rw [hsame]
      exact (List.append_nil _).symm
  | docBlock | nothing | directive => exact (List.append_nil _).symm
  | attributes inner => exact congrArg (s.attributes ++ ·) (List.append_nil _).symm

variable {s : Statement} (lines : List PrefaceLine)

theorem header_foldl_led : (lines.foldl led s).header = s.header := by
  induction lines generalizing s with
  | nil => rfl
  | cons line lines ih => rw [List.foldl_cons, ih, header_led]

theorem attributes_foldl_led :
    (lines.foldl led s).attributes = s.attributes ++ sectionAttributes lines := by
  induction lines generalizing s with
  | nil => exact (List.append_nil _).symm
  | cons line lines ih =>
      rw [List.foldl_cons, ih, attributes_led, List.append_assoc, sectionAttributes, sectionAttributes,
        sectionAttributes, List.flatMap_cons, List.flatMap_cons, List.flatMap_nil, List.append_nil]

/-- Once there is a comment that is closed, or a section, no comment is taken any more. -/
theorem comment_foldl_settled (h : s.attributed = true ∨ s.comment.isSome ∧ s.commentOpen = false) :
    (lines.foldl led s).comment = s.comment := by
  induction lines generalizing s with
  | nil => rfl
  | cons line lines ih =>
      have hstep : (s.led line).comment = s.comment ∧ ((s.led line).attributed = true ∨
          (s.led line).comment.isSome ∧ (s.led line).commentOpen = false) := by
        obtain ⟨header, comment, commentOpen, attributed, attributes⟩ := s
        cases line <;> cases attributed <;> cases comment <;> simp_all [led]
      rw [List.foldl_cons, ih hstep.2, hstep.1]

/-- An open comment goes on with the documentation lines that come next. -/
theorem comment_foldl_open {comment : List Char} (hcomment : s.comment = some comment)
    (hopen : s.commentOpen = true) (hattributed : s.attributed = false) :
    (lines.foldl led s).comment =
      some (List.intercalate ['\n'] (comment :: docLines lines)) := by
  induction lines generalizing s comment with
  | nil => exact hcomment.trans (congrArg some (List.append_nil comment).symm)
  | cons line lines ih =>
      rw [List.foldl_cons]
      cases line with
      | docLine next =>
          have hstep : s.led (.docLine next) =
              { s with comment := some (comment ++ '\n' :: next) } := by
            simp only [led, hattributed, hcomment, hopen, if_true, Bool.false_eq_true, if_false]
          have hcomment' := congrArg Statement.comment hstep
          have hopen' := (congrArg Statement.commentOpen hstep).trans hopen
          have hattributed' := (congrArg Statement.attributed hstep).trans hattributed
          rw [ih hcomment' hopen' hattributed', docLines]
          cases docLines lines <;> simp [List.intercalate]
      | directive => exact ih hcomment hopen hattributed
      | docBlock | nothing | attributes =>
          rw [comment_foldl_settled lines (by simp [led, hcomment])]
          simp [led, hcomment, docLines, List.intercalate]

theorem comment_foldl_fresh (hcomment : s.comment = none) (hattributed : s.attributed = false) :
    (lines.foldl led s).comment.getD [] = firstComment lines := by
  induction lines generalizing s with
  | nil => rw [List.foldl_nil, hcomment, firstComment, Option.getD_none]
  | cons line lines ih =>
      rw [List.foldl_cons]
      cases line with
      | docLine comment =>
          have hstep : s.led (.docLine comment) =
              { s with comment := some comment, commentOpen := true } := by
            simp only [led, hattributed, hcomment, Bool.false_eq_true, if_false]
          have hcomment' := congrArg Statement.comment hstep
          have hopen' := congrArg Statement.commentOpen hstep
          have hattributed' := (congrArg Statement.attributed hstep).trans hattributed
          rw [comment_foldl_open lines hcomment' hopen' hattributed']
          rfl
      | docBlock comment =>
          rw [comment_foldl_settled lines (by simp [led, hcomment, hattributed])]
          simp [led, hcomment, hattributed, firstComment]
      | nothing | directive => exact ih hcomment hattributed
      | attributes inner =>
          rw [comment_foldl_settled lines (.inl rfl)]
          exact congrArg (Option.getD · []) hcomment

end Statement

/-! ## Reading the lines -/

namespace State

/-- The state with another statement, which is being read. -/
def reading (st : State) (s : Statement) (used : Bool) : State :=
  { st with statement := s, lineUsed := used }

/-- A comment that documents nothing. -/
theorem readComment_plain (st : State) {s : List Char}
    (hline : "////".toList <+: s ∨ ¬"///".toList <+: s)
    (hblock : "/**/".toList <+: s ∨ ¬"/**".toList <+: s) (text : List Char) :
    st.readComment s text = st.touchLine.closeComment := by
  rw [readComment_eq]
  rcases hline with hline | hline
  · rw [if_pos hline]
  · rcases hblock with hblock | hblock
    · rw [if_neg hline, if_pos hblock, ite_self]
    · rw [if_neg hline, if_neg hblock, ite_self, ite_self]

variable {st : State} {s : Statement} {used : Bool} (hheader : s.header = [])
include hheader

theorem headerBlank_reading : (st.reading s used).headerBlank = true := by
  rw [headerBlank, reading, hheader]
  rfl

theorem space_reading : (st.reading s used).space = st.reading s used := by
  rw [space, reading, hheader]
  rfl

theorem blank_reading {c : Char} (hc : c ≠ '\n') :
    (st.reading s used).blank c = st.reading s used := by
  rw [blank_eq, if_neg hc, space_reading hheader]

/-- The end of a line that holds more than blanks. -/
theorem newline_reading : (st.reading s true).blank '\n' = st.reading s false := by
  have hline : (st.reading s true).endLine = st.reading s false := rfl
  rw [blank_eq, if_pos rfl, hline, space_reading hheader]

theorem lineComment_reading (comment : List Char) :
    (st.reading s used).lineComment comment = st.reading (s.led (.docLine comment)) true := by
  have haccepts : (st.reading s used).acceptsComment = !s.attributed := by
    rw [acceptsComment, headerBlank_reading hheader, Bool.true_and]
    rfl
  obtain ⟨header, found, commentOpen, attributed, attributes⟩ := s
  unfold lineComment Statement.led
  rw [haccepts]
  cases attributed with
  | true => rfl
  | false => cases found <;> cases commentOpen <;> rfl

theorem blockComment_reading (comment : List Char) :
    (st.reading s used).blockComment comment = st.reading (s.led (.docBlock comment)) true := by
  have haccepts : (st.reading s used).acceptsComment = !s.attributed := by
    rw [acceptsComment, headerBlank_reading hheader, Bool.true_and]
    rfl
  obtain ⟨header, found, commentOpen, attributed, attributes⟩ := s
  unfold blockComment Statement.led
  rw [haccepts]
  cases attributed <;> cases found <;> rfl

end State

section Line

variable {st : State} {s : Statement} {used : Bool} (hheader : s.header = [])
include hheader

theorem scanFrom_gap {gap : List Char} (hgap : IsGap gap) (r : List Char) :
    scanFrom (st.reading s used) (gap ++ r) = scanFrom (st.reading s used) r := by
  obtain ⟨hblank, hline⟩ := hgap
  induction gap with
  | nil => rfl
  | cons c gap ih =>
      rw [allBlank, List.all_cons, Bool.and_eq_true] at hblank
      rw [List.mem_cons, not_or] at hline
      rw [List.cons_append, scanFrom_blank hblank.1,
        State.blank_reading hheader fun e => hline.1 e.symm, ih hblank.2 hline.2]

theorem scanFrom_lineEnd (r : List Char) :
    scanFrom (st.reading s true) ('\n' :: r) = scanFrom (st.reading s false) r := by
  rw [scanFrom_blank (c := '\n') (by decide), State.newline_reading hheader]

omit hheader in
theorem scanFrom_leadComment {c : Char} {text r : List Char} {s' : Statement}
    (hread : afterComment? (c :: (text ++ r)) = some (.ok r))
    (hstate : (st.reading s used).readComment (c :: (text ++ r)) (c :: text) = st.reading s' true) :
    scanFrom (st.reading s used) (c :: (text ++ r)) = scanFrom (st.reading s' true) r := by
  have htake : (c :: (text ++ r)).take ((c :: (text ++ r)).length - r.length) = c :: text := by
    have hlen : (c :: (text ++ r)).length - r.length = (c :: text).length := by
      simp only [List.length_cons, List.length_append]
      omega
    rw [hlen, ← List.cons_append, List.take_left]
  rw [scanFrom_next (State.next_comment hread), htake, hstate]

omit hheader in
/-- A comment and what stands behind it on its line. -/
theorem scanFrom_commentLine {c : Char} {text gap r : List Char} {s' : Statement}
    (hread : afterComment? (c :: (text ++ (gap ++ '\n' :: r))) = some (.ok (gap ++ '\n' :: r)))
    (hgap : IsGap gap) (hheader' : s'.header = [])
    (hstate : (st.reading s used).readComment (c :: (text ++ (gap ++ '\n' :: r))) (c :: text) =
      st.reading s' true) :
    scanFrom (st.reading s used) (c :: (text ++ (gap ++ '\n' :: r))) =
      scanFrom (st.reading s' false) r :=
  (scanFrom_leadComment hread hstate).trans
    ((scanFrom_gap hheader' hgap _).trans (scanFrom_lineEnd hheader' r))

theorem scanFrom_docBlock {t : List Char} (hend : ¬ "*/".toList <:+: '*' :: t) (r : List Char) :
    scanFrom (st.reading s used) ("/**".toList ++ t ++ "*/".toList ++ r) =
      scanFrom (st.reading (s.led (.docBlock ("/**".toList ++ t ++ "*/".toList))) true) r := by
  have htext : "/**".toList ++ t ++ "*/".toList ++ r =
      '/' :: ('*' :: '*' :: (t ++ "*/".toList) ++ r) := by simp
  have hread := afterComment?_block hend r
  have hempty : ¬"/**/".toList <+: '/' :: ('*' :: '*' :: (t ++ "*/".toList) ++ r) := by
    rintro ⟨u, hu⟩
    cases t with
    | nil => simp at hu
    | cons d t =>
        obtain ⟨rfl, -⟩ : '/' = d ∧ _ := by simpa using hu
        exact hend ⟨[], t, rfl⟩
  rw [htext]
  refine scanFrom_leadComment (by simpa using hread) ?_
  rw [State.readComment_eq, if_neg (by simp), if_neg (by simp), if_neg hempty,
    if_pos ⟨_, rfl⟩, State.blockComment_reading hheader]
  simp

theorem scanFrom_docLine_reading {t : List Char} (hline : '\n' ∉ t) (hslash : Stops (· == '/') t)
    (r : List Char) :
    scanFrom (st.reading s used) ("///".toList ++ t ++ '\n' :: r) =
      scanFrom (st.reading (s.led (.docLine ("///".toList ++ t))) false) r := by
  have hled : (s.led (.docLine ("///".toList ++ t))).header = [] :=
    (s.header_led _).trans hheader
  rw [← scanFrom_lineEnd hled, ← State.lineComment_reading hheader]
  exact scanFrom_doc hline hslash

theorem scanFrom_directive {t : List Char} (ht : '\n' ∉ t) (r : List Char) :
    scanFrom (st.reading s used) ('#' :: (t ++ '\n' :: r)) = scanFrom (st.reading s false) r := by
  rw [scanFrom_step (.directive rfl (State.headerBlank_reading hheader)), dropLine_append ht]
  exact scanFrom_lineEnd hheader r

theorem scanFrom_plainLine {t : List Char} (hline : '\n' ∉ t)
    (hmarks : Stops (· == '/') t ∨ "//".toList <+: t) (r : List Char) :
    scanFrom (st.reading s used) ("//".toList ++ t ++ '\n' :: r) =
      scanFrom (st.reading (s.led .nothing) false) r := by
  refine @scanFrom_commentLine _ _ _ _ ('/' :: t) [] r _ (afterComment?_line hline r)
    ⟨rfl, List.not_mem_nil⟩ ((s.header_led .nothing).trans hheader) ?_
  refine State.readComment_plain _ ?_ (.inr (by simp)) _
  rcases hmarks with hstops | ⟨u, rfl⟩
  · refine .inr fun ⟨u, hu⟩ => ?_
    cases t with
    | nil => simp at hu
    | cons d t =>
        have hd : d ≠ '/' := by simpa using hstops d rfl
        simp [hd.symm] at hu
  · exact .inl ⟨u ++ '\n' :: r, rfl⟩

theorem scanFrom_plainBlock {t gap : List Char} (hend : ¬ "*/".toList <:+: t)
    (hstar : Stops (· == '*') t) (hgap : IsGap gap) (r : List Char) :
    scanFrom (st.reading s used) ("/*".toList ++ t ++ "*/".toList ++ gap ++ '\n' :: r) =
      scanFrom (st.reading (s.led .nothing) false) r := by
  have htext : "/*".toList ++ t ++ "*/".toList ++ gap ++ '\n' :: r =
      '/' :: ('*' :: (t ++ "*/".toList) ++ (gap ++ '\n' :: r)) := by simp
  have hread := afterComment?_block hend (gap ++ '\n' :: r)
  rw [htext]
  refine scanFrom_commentLine (by simpa using hread) hgap ((s.header_led .nothing).trans hheader) ?_
  refine State.readComment_plain _ (.inr (by simp)) ?_ _
  cases t with
  | nil => exact .inl ⟨gap ++ '\n' :: r, rfl⟩
  | cons d t =>
      have hd : d ≠ '*' := by simpa using hstar d rfl
      exact .inr (by simp [hd.symm])

theorem scanFrom_blankLine (hused : used = true → s.commentOpen = false) (r : List Char) :
    scanFrom (st.reading s used) ('\n' :: r) =
      scanFrom (st.reading (s.led .nothing) false) r := by
  have hline : (st.reading s used).endLine = st.reading { s with commentOpen := false } false := by
    cases used with
    | false => rfl
    | true =>
        have hsame : s = { s with commentOpen := false } := by rw [← hused rfl]
        rw [← hsame]
        rfl
  have hstate : (st.reading s used).blank '\n' =
      st.reading { s with commentOpen := false } false := by
    rw [State.blank_eq, if_pos rfl, hline]
    exact State.space_reading hheader
  rw [scanFrom_blank (c := '\n') (by decide), hstate]
  rfl

/-- A line in front of a header is read as it is written. -/
theorem scanFrom_line (hused : used = true → s.commentOpen = false) {line : PrefaceLine}
    {text : List Char} (h : line.Written text) (r : List Char) :
    scanFrom (st.reading s used) (text ++ '\n' :: r) =
      scanFrom (st.reading (s.led line) false) r := by
  have hled : (s.led line).header = [] := (s.header_led line).trans hheader
  cases h with
  | docLine hline hslash => exact scanFrom_docLine_reading hheader hline hslash r
  | lineComment hline hmarks => exact scanFrom_plainLine hheader hline hmarks r
  | @docBlock t gap hend hgap =>
      rw [List.append_assoc _ gap, scanFrom_docBlock hheader hend]
      exact (scanFrom_gap hled hgap _).trans (scanFrom_lineEnd hled r)
  | blockComment hend hstar hgap => exact scanFrom_plainBlock hheader hend hstar hgap r
  | blank => exact scanFrom_blankLine hheader hused r
  | directive ht => exact scanFrom_directive hheader ht r
  | @attributes inner gap hinner hgap =>
      have htext : '[' :: (inner ++ ']' :: gap) ++ '\n' :: r =
          '[' :: (inner ++ ']' :: (gap ++ '\n' :: r)) := by simp
      rw [htext, scanFrom_section (State.headerBlank_reading hheader) (readSection_text hinner _ _)]
      exact (scanFrom_gap hled hgap _).trans (scanFrom_lineEnd hled r)

end Line

/-- The lines are read one after the other. -/
theorem scanFrom_preface {lines : List PrefaceLine} {text : List Char} (h : Preface lines text)
    {st : State} {s : Statement} {used : Bool} (hheader : s.header = [])
    (hused : used = true → s.commentOpen = false) (r : List Char) :
    ∃ used', scanFrom (st.reading s used) (text ++ r) =
      scanFrom (st.reading (lines.foldl Statement.led s) used') r := by
  induction h generalizing s used with
  | indent hgap => exact ⟨used, scanFrom_gap hheader hgap r⟩
  | @line line lines gap text rest hgap hwritten _ ih =>
      have hled := (s.header_led line).trans hheader
      obtain ⟨used', hrest⟩ := @ih (s.led line) false hled fun h => Bool.noConfusion h
      refine ⟨used', ?_⟩
      rw [List.append_assoc, scanFrom_gap hheader hgap, List.append_assoc, List.cons_append,
        scanFrom_line hheader hused hwritten, hrest, List.foldl_cons]

/-! ## What the declaration takes -/

/-- The two states are in the same header, but in the other one a comment and attributes wait. -/
structure Waits (comment : Option (List Char)) (attributes : List Attribute) (st other : State) :
    Prop where
  filled : st.headerBlank = false
  plain : st.statement.attributes = []
  eq : ∃ commentOpen attributed, other =
    { st with statement := { st.statement with comment, commentOpen, attributed, attributes } }

namespace Waits

variable {comment : Option (List Char)} {attributes : List Attribute} {st other : State}

theorem gathered (h : Waits comment attributes st other) (text : List Char) (o o' u : Bool) :
    Waits comment attributes (st.gathered text o u) (other.gathered text o' u) := by
  obtain ⟨hfilled, hplain, _, attributed, rfl⟩ := h
  exact ⟨State.headerBlank_gathered hfilled text o u, hplain, o', attributed, rfl⟩

theorem touchLine (h : Waits comment attributes st other) :
    Waits comment attributes st.touchLine other.touchLine := by
  obtain ⟨hfilled, hplain, commentOpen, attributed, rfl⟩ := h
  exact ⟨hfilled, hplain, commentOpen, attributed, rfl⟩

theorem alike (h : Waits comment attributes st other) : st.EndsAlike other := by
  obtain ⟨-, -, _, _, rfl⟩ := h
  exact ⟨⟨rfl, rfl⟩, rfl, rfl⟩

theorem lineUsed (h : Waits comment attributes st other) : other.lineUsed = st.lineUsed := by
  obtain ⟨-, -, _, _, rfl⟩ := h
  rfl

end Waits

theorem carried_waits (comment : Option (List Char)) (attributes : List Attribute) :
    Carried (Waits comment attributes) where
  alike h := h.alike
  lineUsed h := h.lineUsed
  run {act st other} hfits hgoes h := by
    have hfilled' : other.headerBlank = false := h.alike.headerBlank.trans h.filled
    cases act with
    | comment s text =>
        obtain ⟨o, hst⟩ := State.readComment_header h.filled s text
        obtain ⟨o', hother⟩ := State.readComment_header hfilled' s text
        rw [Act.run, Act.run, hst, hother]
        exact h.gathered [] o o' true
    | directive => exact h.touchLine
    | write text => exact h.gathered text _ _ true
    | attributes inner => exact absurd hfits (by rw [Act.Fits, h.filled]; decide)
    | openBrace =>
        have hother : ¬Act.openBrace.Ends other := by
          rw [Act.Ends, h.alike.header]
          exact hgoes
        rw [Act.run, Act.run, State.braced_of_goes hgoes, State.braced_of_goes hother]
        exact h.gathered _ _ _ true
    | blank c =>
        obtain ⟨o, hst⟩ := State.blank_header h.filled c
        obtain ⟨o', hother⟩ := State.blank_header hfilled' c
        rw [Act.run, Act.run, hst, hother, h.alike.header, h.lineUsed]
        exact h.gathered _ o o' _
    | semicolon | closeBrace => exact absurd trivial hgoes

theorem next_startsHeader {st : State} {c : Char} {rest : List Char} (hblank : isBlank c = false)
    (hc : c ∉ "#[\x7b;\x7d".toList) (hcomment : afterComment? (c :: rest) = none)
    (hliteral : afterLiteral? (c :: rest) = none) :
    st.next c rest = .ok (st.write [c], rest) := by
  simp only [String.reduceToList, List.mem_cons, List.not_mem_nil, or_false, not_or] at hc
  exact State.next_eq_ok_iff.2 (.code hcomment (fun hash => hc.1 hash.1) hliteral
    (.write hblank (by simp [hc]) fun hopen => absurd hopen hc.2.1))

/-- What waits is taken by the declaration of the statement that begins, and by no other. -/
theorem scanFrom_reading {st : State} {s : Statement} {used : Bool} (hfresh : st.statement = {})
    (hheader : s.header = []) {post : List Char} (hpost : StartsHeader post) :
    ((∃ ds, scanFrom (st.reading s used) post = .ok ds) ↔ ∃ ds, scanFrom st post = .ok ds) ∧
    ∀ ds, scanFrom st post = .ok ds →
      (∀ d, Makes st post d → ∃ more, ds = st.declarations ++ d :: more ∧
        scanFrom (st.reading s used) post = .ok (st.declarations ++
          { d with rawComment := String.ofList (s.comment.getD []), attributes := s.attributes } ::
            more)) ∧
      ((∀ d, ¬Makes st post d) → scanFrom (st.reading s used) post = .ok ds) := by
  obtain ⟨c, rest, rfl, hblank, hc, hcomment, hliteral⟩ := hpost
  have hnext : ∀ st : State, st.next c rest = .ok (st.write [c], rest) := fun st =>
    next_startsHeader hblank hc hcomment hliteral
  have hscan : ∀ st : State, scanFrom st (c :: rest) = scanFrom (st.write [c]) rest := fun st =>
    scanFrom_next (hnext st)
  have hgoes : ¬st.EndsAt c := by
    simp only [String.reduceToList, List.mem_cons, List.not_mem_nil, or_false, not_or] at hc
    simp [State.EndsAt, hc]
  have hwaits : Waits s.comment s.attributes (st.write [c]) ((st.reading s used).write [c]) := by
    refine ⟨?_, ?_, s.commentOpen, s.attributed, ?_⟩
    · rw [State.headerBlank, State.write, State.setHeader, hfresh, allBlank]
      simp [hblank]
    · rw [State.write, State.setHeader, hfresh]
    · simp only [State.write, State.setHeader, State.reading, hfresh, hheader]
  have hcarried := carried_waits s.comment s.attributes
  simp only [hscan, makes_goes (hnext st) hgoes]
  constructor
  · constructor
    · rintro ⟨ds, hds⟩
      rcases scanFrom_related hcarried.symm hwaits hds with
        ⟨_, _, _, _, _, _, -, -, -, -, hplain⟩ | ⟨-, _, -, hplain⟩ <;> exact ⟨_, hplain⟩
    · rintro ⟨ds, hds⟩
      rcases scanFrom_related hcarried hwaits hds with
        ⟨_, _, _, _, _, _, -, -, -, -, hread⟩ | ⟨-, _, -, hread⟩ <;> exact ⟨_, hread⟩
  · intro ds hds
    rcases scanFrom_related hcarried hwaits hds with
      ⟨last, last', names, kind, bases, more, hlast, hmakes, -, heq, hread⟩ | ⟨hnone, more, rfl, hread⟩
    · refine ⟨fun d hd => ?_, fun hnone => absurd hmakes (hnone _)⟩
      cases hmakes.unique hd
      obtain ⟨-, -, _, _, rfl⟩ := hlast
      exact ⟨more, heq, hread⟩
    · exact ⟨fun d hd => absurd hd (hnone d), fun _ => hread⟩

/-- The declaration in front of which the lines stand takes the first comment that comes before
any section and the attributes of all sections.  All else is as without the lines. -/
theorem scan_preface {pre text post : List Char} {st : State} {lines : List PrefaceLine}
    (hcomes : ComesTo {} (pre ++ (text ++ post)) st (text ++ post)) (hfresh : st.statement = {})
    (hlines : Preface lines text) (hpost : StartsHeader post) :
    ((∃ ds, scan (String.ofList (pre ++ (text ++ post))) = .ok ds) ↔
      ∃ ds, scanFrom st post = .ok ds) ∧
    ∀ ds, scanFrom st post = .ok ds →
      (∀ d, Makes st post d → ∃ more, ds = st.declarations ++ d :: more ∧
        scan (String.ofList (pre ++ (text ++ post))) = .ok (st.declarations ++
          { d with
            rawComment := String.ofList (firstComment lines)
            attributes := sectionAttributes lines } :: more)) ∧
      ((∀ d, ¬Makes st post d) → scan (String.ofList (pre ++ (text ++ post))) = .ok ds) := by
  have hstart : st = st.reading {} st.lineUsed := by rw [State.reading, ← hfresh]
  obtain ⟨used, hread⟩ := @scanFrom_preface _ _ hlines st {} st.lineUsed rfl (fun _ => rfl) post
  have hcomment : ((lines.foldl Statement.led {}).comment.getD []) = firstComment lines :=
    Statement.comment_foldl_fresh lines rfl rfl
  have hattributes : (lines.foldl Statement.led {}).attributes = sectionAttributes lines :=
    Statement.attributes_foldl_led lines
  have hheader : (lines.foldl Statement.led {}).header = [] := Statement.header_foldl_led lines
  rw [← hstart] at hread
  simp only [scan, mapError_eq_ok, String.toList_ofList, scanFrom_comesTo hcomes, hread,
    ← hcomment, ← hattributes]
  exact scanFrom_reading hfresh hheader hpost

/-- Two lines of documentation with a directive in between, a section and a third line. -/
def prefaceSample : List Char := "/// a\n#region\n  /// b\n[X]\n/// c\n".toList

def prefaceSampleLines : List PrefaceLine :=
  [.docLine "/// a".toList, .directive, .docLine "/// b".toList, .attributes "X".toList,
    .docLine "/// c".toList]

theorem preface_sample : Preface prefaceSampleLines prefaceSample := by
  have hno : IsGap [] := ⟨rfl, List.not_mem_nil⟩
  have hindent : IsGap "  ".toList := ⟨by decide, by decide⟩
  have hdoc : ∀ c : Char, c ≠ '\n' → (PrefaceLine.docLine ("///".toList ++ [' ', c])).Written
      ("///".toList ++ [' ', c]) := fun c hc =>
    .docLine (by simp [hc.symm]) (stops_cons rfl [c])
  have hdirective : PrefaceLine.directive.Written "#region".toList :=
    @PrefaceLine.Written.directive "region".toList (by decide)
  have hsection : SectionText "X".toList := @section_plain "X".toList [] (by decide) .nil
  exact .line hno (hdoc 'a' (by decide)) (.line hno hdirective
    (.line hindent (hdoc 'b' (by decide)) (.line hno (.attributes hsection hno)
      (.line hno (hdoc 'c' (by decide)) (.indent hno)))))

theorem makes_classSample :
    Makes {} "class C;".toList { names := ["C"], kind := .classType } := by
  have hgoes : ∀ c ∈ "class C".toList, ∀ st : State, ¬st.EndsAt c := by
    simp [State.EndsAt]
  exact .later rfl (hgoes _ (by decide) _) (.later rfl (hgoes _ (by decide) _)
    (.later rfl (hgoes _ (by decide) _) (.later rfl (hgoes _ (by decide) _)
    (.later rfl (hgoes _ (by decide) _) (.later rfl (hgoes _ (by decide) _)
    (.later rfl (hgoes _ (by decide) _) (.now rfl (.inl rfl) rfl)))))))

theorem scan_preface_sample :
    ∃ st : State, ComesTo {} (";".toList ++ (prefaceSample ++ "class C;".toList)) st
        (prefaceSample ++ "class C;".toList) ∧ st.statement = {} ∧
      Preface prefaceSampleLines prefaceSample ∧ StartsHeader "class C;".toList ∧
      scan (String.ofList (";".toList ++ (prefaceSample ++ "class C;".toList))) =
        .ok [{ names := ["C"], kind := .classType, rawComment := "/// a\n/// b",
               attributes := [⟨"X", []⟩] }] := by
  have hcomes : ComesTo {} (";".toList ++ (prefaceSample ++ "class C;".toList)) _
      (prefaceSample ++ "class C;".toList) := .step rfl .here
  have hpost : StartsHeader "class C;".toList :=
    ⟨'c', "lass C;".toList, rfl, by decide, by decide, rfl, rfl⟩
  refine ⟨_, hcomes, rfl, preface_sample, hpost, ?_⟩
  have hempty : ({} : State).semicolon = {} := rfl
  have hplain : scanFrom {} "class C;".toList = .ok [{ names := ["C"], kind := .classType }] :=
    mapError_eq_ok.1 (show scan "class C;" = _ from scan_eq_ok (by decide +kernel))
  rw [← hempty] at hplain
  obtain ⟨more, hmore, hscan⟩ :=
    ((scan_preface hcomes rfl preface_sample hpost).2 _ hplain).1 _ makes_classSample
  cases List.cons.inj hmore |>.2
  exact hscan

end Declaration
end DocPages
