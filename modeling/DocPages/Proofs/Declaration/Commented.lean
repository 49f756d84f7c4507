/-
A comment in either style in front of a declaration.

The scanner ends a line comment at the line and a block at its closing mark, and what it keeps is
the comment without the indentation in front of it.  So the declaration gets a comment that says
the same in either style: `comment_styles`.
-/
import DocPages.Proofs.Comment.Styles
import DocPages.Proofs.Declaration.Preface

namespace DocPages
namespace Declaration

open Text Comment

/-! ## The text of a comment -/

/-- What stands between the marks of a block. -/
def inBlock (gap last : List Char) (rows : List Row) : List Char :=
  gap ++ '\n' :: (rows.flatMap (fun row => row.starred ++ ['\n']) ++ last)

theorem block_eq (first gap last : List Char) (rows : List Row) :
    block first gap last rows =
      first ++ ("/**".toList ++ inBlock gap last rows ++ "*/".toList) := by
  have hrows : ∀ rows : List Row,
      List.intercalate ['\n'] (rows.map Row.starred ++ [last ++ "*/".toList]) =
        rows.flatMap (fun row => row.starred ++ ['\n']) ++ (last ++ "*/".toList) := by
    intro rows
    induction rows with
    | nil => exact List.intercalate_singleton
    | cons row rest ih =>
        rw [List.map_cons, List.cons_append,
          List.intercalate_cons_of_ne_nil (List.append_ne_nil_of_right_ne_nil _ (List.cons_ne_nil _ _)),
          ih, List.flatMap_cons, List.append_assoc (row.starred ++ ['\n'])]
  rw [block, List.intercalate_cons_of_ne_nil
    (List.append_ne_nil_of_right_ne_nil _ (List.cons_ne_nil _ _)), hrows, inBlock]
  simp only [List.append_assoc, List.cons_append, List.nil_append]

section Unclosed

theorem unclosed_blank {gap s : List Char} (hgap : allBlank gap = true)
    (hs : ¬"*/".toList <:+: s) : ¬"*/".toList <:+: gap ++ s := by
  induction gap with
  | nil => exact hs
  | cons c gap ih =>
      rw [allBlank, List.all_cons, Bool.and_eq_true] at hgap
      rw [List.cons_append, List.infix_cons_iff, not_or]
      refine ⟨fun hprefix => ?_, ih hgap.2⟩
      obtain ⟨rfl, -⟩ := List.cons_prefix_cons.1 hprefix
      exact absurd hgap.1 (by decide)

theorem unclosed_star {s : List Char} (hslash : Stops (· == '/') s)
    (hs : ¬"*/".toList <:+: s) : ¬"*/".toList <:+: '*' :: s := by
  rw [List.infix_cons_iff, not_or]
  refine ⟨fun hprefix => ?_, hs⟩
  obtain ⟨rest, rfl⟩ := (List.cons_prefix_cons.1 hprefix).2
  exact absurd (hslash '/' rfl) (by decide)

theorem unclosed_newline {a s : List Char} (ha : ¬"*/".toList <:+: a) (hs : ¬"*/".toList <:+: s) :
    ¬"*/".toList <:+: a ++ '\n' :: s := by
  have hline : ¬"*/".toList <:+: '\n' :: s := @unclosed_blank ['\n'] s rfl hs
  rw [List.infix_append_iff, not_or, not_or]
  refine ⟨ha, hline, ?_⟩
  rintro ⟨front, back, hmark, hfront, hback⟩
  cases back with
  | nil => exact ha (by rw [hmark, List.append_nil]; exact hfront.isInfix)
  | cons c back =>
      obtain ⟨rfl, -⟩ := List.cons_prefix_cons.1 hback
      have hmem : '\n' ∈ "*/".toList := by rw [hmark]; simp
      exact absurd hmem (by decide)

theorem stops_newline {s : List Char} (h : Stops (· == '/') s) (r : List Char) :
    Stops (· == '/') (s ++ '\n' :: r) := stops_append h (stops_cons rfl r)

theorem unclosed_inBlock {rows : List Row} (hrows : ∀ row ∈ rows, row.Ok) {gap last : List Char}
    (hgap : allBlank gap = true) (hlast : allBlank last = true) :
    ¬"*/".toList <:+: '*' :: inBlock gap last rows := by
  have hnone : ¬"*/".toList <:+: ([] : List Char) := by decide
  have hlines : ¬"*/".toList <:+: rows.flatMap (fun row => row.starred ++ ['\n']) ++ last := by
    induction rows with
    | nil =>
        have hblank := unclosed_blank hlast hnone
        rwa [List.append_nil] at hblank
    | cons row rest ih =>
        have hok := hrows row List.mem_cons_self
        have hrest := ih fun other hmem => hrows other (List.mem_cons_of_mem _ hmem)
        have hrow := unclosed_blank hok.indentBlank (unclosed_star
          (stops_newline hok.noSlash _) (unclosed_newline hok.unclosed hrest))
        simpa [Row.starred] using hrow
  have hslash : Stops (· == '/') gap := by
    intro c hc
    have hblank := List.all_eq_true.1 hgap c (List.mem_of_mem_head? hc)
    rw [beq_eq_false_iff_ne]
    rintro rfl
    exact absurd hblank (by decide)
  have hunclosed : ¬"*/".toList <:+: gap := by
    have hblank := unclosed_blank hgap hnone
    rwa [List.append_nil] at hblank
  exact unclosed_star (stops_newline hslash _) (unclosed_newline hunclosed hlines)

end Unclosed

/-! ## What is kept of it -/

/-- What has been read of the statement is blank, and no comment or section among it. -/
structure Statement.Fresh (s : Statement) : Prop where
  header : s.header = []
  comment : s.comment = none
  attributed : s.attributed = false

/-- The lines of documentation that the rows are. -/
def docRows (rows : List Row) : List PrefaceLine :=
  rows.map fun row => .docLine ("///".toList ++ row.content)

section Reading

variable {st : State} {s : Statement} {used : Bool} (hheader : s.header = [])
include hheader

/-- Blanks in front of a header leave what waits for it. -/
theorem scanFrom_blanks_reading {between : List Char} (hblank : allBlank between = true)
    (r : List Char) :
    ∃ s' used', scanFrom (st.reading s used) (between ++ r) = scanFrom (st.reading s' used') r ∧
      s'.header = [] ∧ s'.comment = s.comment ∧ s'.attributes = s.attributes := by
  induction between generalizing s used with
  | nil => exact ⟨s, used, rfl, hheader, rfl, rfl⟩
  | cons c between ih =>
      rw [allBlank, List.all_cons, Bool.and_eq_true] at hblank
      rw [List.cons_append, scanFrom_blank hblank.1]
      by_cases hc : c = '\n'
      · subst hc
        cases used with
        | true =>
            rw [State.newline_reading hheader]
            exact ih hheader hblank.2
        | false =>
            have hclosed : ({ s with commentOpen := false } : Statement).header = [] := hheader
            have hline : (st.reading s false).blank '\n' =
                st.reading { s with commentOpen := false } false := by
              rw [State.blank_eq, if_pos rfl]
              exact State.space_reading hclosed
            rw [hline]
            exact ih hclosed hblank.2
      · rw [State.blank_reading hheader hc]
        exact ih hheader hblank.2

theorem scanFrom_slashed {rows : List Row} (hrows : ∀ row ∈ rows, row.Ok) (hne : rows ≠ [])
    (r : List Char) :
    scanFrom (st.reading s used) (slashed rows ++ '\n' :: r) =
      scanFrom (st.reading ((docRows rows).foldl Statement.led s) false) r := by
  induction rows generalizing s used with
  | nil => exact absurd rfl hne
  | cons row rest ih =>
      have hok := hrows row List.mem_cons_self
      have hled : (s.led (.docLine ("///".toList ++ row.content))).header = [] :=
        (s.header_led _).trans hheader
      have hline : ∀ r, scanFrom (st.reading s used) (row.slashed ++ '\n' :: r) =
          scanFrom (st.reading (s.led (.docLine ("///".toList ++ row.content))) false) r := by
        intro r
        rw [Row.slashed, List.append_assoc,
          scanFrom_gap hheader ⟨hok.indentBlank, hok.indentOneLine⟩]
        exact scanFrom_docLine_reading hheader hok.oneLine hok.noSlash r
      rw [docRows, List.map_cons, List.foldl_cons, ← docRows]
      cases rest with
      | nil =>
          have hsingle : slashed [row] = row.slashed := List.intercalate_singleton
          rw [hsingle, hline]
          rfl
      | cons second more =>
          have hcons : slashed (row :: second :: more) =
              row.slashed ++ '\n' :: slashed (second :: more) := by
            rw [slashed, List.map_cons, List.intercalate_cons_of_ne_nil (by simp)]
            simp [slashed]
          rw [hcons, List.append_assoc, List.cons_append, hline]
          exact ih hled (fun other hmem => hrows other (List.mem_cons_of_mem _ hmem))
            (List.cons_ne_nil _ _)

theorem scanFrom_block {rows : List Row} (hrows : ∀ row ∈ rows, row.Ok) {first gap last : List Char}
    (hfirst : IsGap first) (hgap : IsGap gap) (hlast : IsGap last) (r : List Char) :
    scanFrom (st.reading s used) (block first gap last rows ++ r) =
      scanFrom (st.reading (s.led (.docBlock (block [] gap last rows))) true) r := by
  have hunclosed := unclosed_inBlock hrows hgap.1 hlast.1
  rw [block_eq, block_eq, List.nil_append, List.append_assoc first, scanFrom_gap hheader hfirst]
  exact scanFrom_docBlock hheader hunclosed r

end Reading

theorem firstComment_docRows (rows : List Row) :
    firstComment (docRows rows) = slashed (rows.map Row.flush) := by
  have hlines : ∀ rows : List Row, docLines (docRows rows) =
      (rows.map Row.flush).map Row.slashed := by
    intro rows
    induction rows with
    | nil => rfl
    | cons row rest ih => exact congrArg (_ :: ·) ih
  cases rows with
  | nil => rfl
  | cons row rest =>
      rw [docRows, List.map_cons, firstComment, ← docRows, hlines]
      rfl

theorem saying_flush (rows : List Row) : saying (rows.map Row.flush) = saying rows := by
  rw [saying, saying, List.map_map]
  rfl

/-- After a comment in either style and blanks, what waits says the same. -/
theorem scanFrom_commented {rows : List Row} (hrows : ∀ row ∈ rows, row.Ok)
    {first gap last text between : List Char} (hfirst : IsGap first) (hgap : IsGap gap)
    (hlast : IsGap last)
    (htext : text = slashed rows ++ ['\n'] ∨ text = block first gap last rows)
    (hbetween : allBlank between = true) {st : State} {s : Statement} (hs : s.Fresh) (used : Bool)
    (r : List Char) :
    ∃ s' used', scanFrom (st.reading s used) (text ++ (between ++ r)) =
        scanFrom (st.reading s' used') r ∧
      s'.header = [] ∧ s'.attributes = s.attributes ∧
      normalize (String.ofList (s'.comment.getD [])) = saying rows := by
  have hno : IsGap [] := ⟨rfl, List.not_mem_nil⟩
  have hflush : ∀ row ∈ rows.map Row.flush, row.Ok :=
    List.forall_mem_map.2 fun row hrow => (hrows row hrow).flush
  -- What the comment leaves, the blanks leave too.
  have hled : ∀ (lines : List PrefaceLine) (used' : Bool), sectionAttributes lines = [] →
      normalize (String.ofList (firstComment lines)) = saying rows →
      scanFrom (st.reading s used) (text ++ (between ++ r)) =
        scanFrom (st.reading (lines.foldl Statement.led s) used') (between ++ r) →
      ∃ s' used', scanFrom (st.reading s used) (text ++ (between ++ r)) =
          scanFrom (st.reading s' used') r ∧
        s'.header = [] ∧ s'.attributes = s.attributes ∧
        normalize (String.ofList (s'.comment.getD [])) = saying rows := by
    intro lines used' hattributes hsaid hread
    have hheader := (Statement.header_foldl_led (s := s) lines).trans hs.header
    obtain ⟨s', used'', hblanks, hheader', hcomment, hkept⟩ :=
      @scanFrom_blanks_reading st _ used' hheader between hbetween r
    refine ⟨s', used'', hread.trans hblanks, hheader', ?_, ?_⟩
    · rw [hkept, Statement.attributes_foldl_led, hattributes, List.append_nil]
    · rw [hcomment, Statement.comment_foldl_fresh lines hs.comment hs.attributed, hsaid]
  rcases htext with rfl | rfl
  · cases rows with
    | nil =>
        -- There is no comment, and the line break is a blank like those behind it.
        have hblank : allBlank ('\n' :: between) = true := hbetween
        obtain ⟨s', used', hblanks, hheader', hcomment, hkept⟩ :=
          @scanFrom_blanks_reading st s used hs.header ('\n' :: between) hblank r
        refine ⟨s', used', hblanks, hheader', hkept, ?_⟩
        rw [hcomment, hs.comment]
        rfl
    | cons row rest =>
        refine hled (docRows (row :: rest)) false ?_ ?_ ?_
        · exact List.flatMap_eq_nil_iff.2 (List.forall_mem_map.2 fun _ _ => rfl)
        · rw [firstComment_docRows, normalize_slashed hflush, saying_flush]
        · rw [List.append_assoc]
          exact scanFrom_slashed hs.header hrows (List.cons_ne_nil _ _) _
  · refine hled [.docBlock (block [] gap last rows)] true rfl ?_ ?_
    · exact normalize_block hrows hno hgap hlast
    · exact scanFrom_block hs.header hrows hfirst hgap hlast _

/-- The same lines say the same in either style: without their decoration they are the lines
without the blanks at their ends and without blank lines.  In front of a declaration either
comment is what the declaration gets, as long as it is the first of its statement. -/
theorem comment_styles {rows : List Row} (hrows : ∀ row ∈ rows, row.Ok)
    {first gap last : List Char} (hfirst : IsGap first) (hgap : IsGap gap) (hlast : IsGap last) :
    normalize (String.ofList (slashed rows)) = saying rows ∧
    normalize (String.ofList (block first gap last rows)) = saying rows ∧
    ∀ {pre text between post : List Char} {st : State} {d : Declaration},
      text = slashed rows ++ ['\n'] ∨ text = block first gap last rows → allBlank between = true →
      ComesTo {} (pre ++ (text ++ (between ++ post))) st (text ++ (between ++ post)) →
      st.statement.Fresh → StartsHeader post → Makes { st with statement := {} } post d →
      (∃ ds, scan (String.ofList (pre ++ (text ++ (between ++ post)))) = .ok ds) →
      ∃ raw more, scan (String.ofList (pre ++ (text ++ (between ++ post)))) =
          .ok (st.declarations ++
            { d with rawComment := raw, attributes := st.statement.attributes } :: more) ∧
        normalize raw = saying rows := by
  refine ⟨normalize_slashed hrows, normalize_block hrows hfirst hgap hlast, ?_⟩
  intro pre text between post st d htext hbetween hcomes hfresh hpost hmakes haccepted
  let start : State := { st with statement := {} }
  have hstart : st = start.reading st.statement st.lineUsed := rfl
  obtain ⟨s, used, hread, hheader, hattributes, hsaid⟩ := @scanFrom_commented rows hrows
    first gap last text between hfirst hgap hlast htext hbetween start st.statement hfresh
    st.lineUsed post
  rw [← hstart] at hread
  simp only [scan, mapError_eq_ok, String.toList_ofList, scanFrom_comesTo hcomes, hread]
    at haccepted ⊢
  obtain ⟨hiff, hgives⟩ := @scanFrom_reading start s used rfl hheader post hpost
  obtain ⟨ds, hds⟩ := hiff.1 haccepted
  obtain ⟨more, -, hscan⟩ := (hgives ds hds).1 d hmakes
  exact ⟨_, more, by rw [hscan, hattributes], hsaid⟩

/-- A star and slashes that are content, and a line that says nothing. -/
def rowsSample : List Row :=
  [⟨"  ".toList, "*a".toList⟩, ⟨[], " ".toList⟩, ⟨" ".toList, " // b ".toList⟩]

theorem ok_rowsSample : ∀ row ∈ rowsSample, row.Ok := by
  have hok : ∀ row : Row, allBlank row.indent = true → '\n' ∉ row.indent → '\n' ∉ row.content →
      ¬"*/".toList <:+: row.content → row.content.head? ≠ some '/' →
      ¬"///".toList <+: trim row.content → row.Ok := by
    intro row hblank hindent hline hunclosed hslash hmark
    refine ⟨hblank, hindent, hline, hunclosed, fun c hc => ?_, hmark⟩
    rw [beq_eq_false_iff_ne]
    rintro rfl
    exact hslash hc
  refine List.forall_mem_cons.2 ⟨?_, List.forall_mem_cons.2 ⟨?_, List.forall_mem_singleton.2 ?_⟩⟩
  all_goals
    refine hok _ ?_ ?_ ?_ ?_ ?_ ?_ <;> decide +kernel

theorem comment_styles_sample :
    (∀ row ∈ rowsSample, row.Ok) ∧
    normalize (String.ofList (slashed rowsSample)) = "*a\n// b" ∧
    normalize (String.ofList (block [] [] [' '] rowsSample)) = "*a\n// b" ∧
    ∀ text ∈ [slashed rowsSample ++ ['\n'], block [] [] [' '] rowsSample], ∃ raw more,
      scan (String.ofList (";".toList ++ (text ++ ([' '] ++ "class C;".toList)))) =
        .ok ({ names := ["C"], kind := .classType, rawComment := raw } :: more) ∧
      normalize raw = "*a\n// b" := by
  have hno : IsGap [] := ⟨rfl, List.not_mem_nil⟩
  have hspace : IsGap [' '] := ⟨rfl, by decide⟩
  have hsaid : saying rowsSample = "*a\n// b" := by decide +kernel
  obtain ⟨hslashed, hblock, hscan⟩ := comment_styles ok_rowsSample hno hno hspace
  rw [hsaid] at hslashed hblock hscan
  refine ⟨ok_rowsSample, hslashed, hblock, fun text htext => ?_⟩
  have hcomes : ComesTo {} (";".toList ++ (text ++ ([' '] ++ "class C;".toList))) {}
      (text ++ ([' '] ++ "class C;".toList)) := .step rfl .here
  have hpost : StartsHeader "class C;".toList :=
    ⟨'c', "lass C;".toList, rfl, by decide, by decide, rfl, rfl⟩
  have hstyle : text = slashed rowsSample ++ ['\n'] ∨ text = block [] [] [' '] rowsSample := by
    simpa using htext
  refine hscan hstyle rfl hcomes ⟨rfl, rfl, rfl⟩ hpost makes_classSample ?_
  rcases hstyle with rfl | rfl
  · exact ⟨[{ names := ["C"], kind := .classType,
              rawComment := "///*a\n/// \n/// // b " }], scan_eq_ok (by decide +kernel)⟩
  · exact ⟨[{ names := ["C"], kind := .classType,
              rawComment := "/**\n  **a\n* \n * // b \n */" }], scan_eq_ok (by decide +kernel)⟩

end Declaration
end DocPages
