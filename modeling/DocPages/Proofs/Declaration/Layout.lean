/-
The blanks in a header.

A run of blanks is one space, whatever it is made of.  That a line ends in it tells whether a
comment is open and whether the line is used, but in a header neither has an effect any more:
`scan_replace_blanks`.
-/
import DocPages.Proofs.Declaration.Gathering
import DocPages.Proofs.Declaration.Statements

namespace DocPages
namespace Declaration

open Text

/-! ## What the layout leaves behind -/

namespace State

def onLine (st : State) (used : Bool) : State := { st with lineUsed := used }

theorem lineComment_onLine (st : State) (used : Bool) (text : List Char) :
    (st.onLine used).lineComment text = st.lineComment text := by
  have haccepts : (st.onLine used).acceptsComment = st.acceptsComment := rfl
  have hstatement : (st.onLine used).statement = st.statement := rfl
  unfold lineComment
  rw [haccepts, hstatement]
  rfl

theorem blockComment_onLine (st : State) (used : Bool) (text : List Char) :
    (st.onLine used).blockComment text = st.blockComment text := by
  have haccepts : (st.onLine used).acceptsComment = st.acceptsComment := rfl
  have hstatement : (st.onLine used).statement = st.statement := rfl
  unfold blockComment
  rw [haccepts, hstatement]
  split <;> rfl

/-- A comment uses its line. -/
theorem readComment_onLine (st : State) (used : Bool) (s text : List Char) :
    (st.onLine used).readComment s text = st.readComment s text := by
  rw [readComment_eq, readComment_eq, lineComment_onLine, blockComment_onLine]
  rfl

theorem space_onLine (st : State) (used : Bool) :
    (st.onLine used).space = st.space.onLine used := by
  have hstatement : (st.onLine used).statement = st.statement := rfl
  unfold space
  rw [hstatement]
  split <;> rfl

/-- Without an open comment the end of a line does not tell whether the line was used. -/
theorem endLine_onLine {st : State} (h : st.statement.commentOpen = false) (used : Bool) :
    (st.onLine used).endLine = st.endLine := by
  have hclosed : ∀ st : State, st.statement.commentOpen = false → st.closeComment = st := by
    intro st h
    rw [closeComment, ← h]
  have hline : ∀ st : State, st.statement.commentOpen = false → st.endLine = st.onLine false := by
    intro st h
    rw [endLine, hclosed st h, ite_self, onLine]
  rw [hline _ h, hline (st.onLine used) h]
  rfl

end State

/-- The states differ at most in the layout of what has been read, in a way that has no effect
on what is still to be read. -/
inductive LaidAlike : State → State → Prop
  | same {st : State} : LaidAlike st st
  | closed {st : State} (used : Bool) :
      st.statement.commentOpen = false → LaidAlike st (st.onLine used)
  | filled {st : State} (commentOpen used : Bool) :
      st.headerBlank = false → LaidAlike st
        { st with statement := { st.statement with commentOpen }, lineUsed := used }

namespace LaidAlike

variable {st other : State}

theorem endsAlike (h : LaidAlike st other) : st.EndsAlike other := by
  cases h <;> exact ⟨⟨rfl, rfl⟩, rfl, rfl⟩

theorem declarations_eq (h : LaidAlike st other) : other.declarations = st.declarations := by
  cases h <;> rfl

theorem made_eq (h : LaidAlike st other) : other.made = st.made := by
  cases h <;> rfl

theorem gathered (h : st.headerBlank = false) (text : List Char) (o o' u u' : Bool) :
    LaidAlike (st.gathered text o u) (st.gathered text o' u') :=
  .filled o' u' (State.headerBlank_gathered h text o u)

/-- At the end of a statement only the line is left to differ. -/
theorem run_ends {act : Act} (hends : act.Ends st) (h : LaidAlike st other) :
    LaidAlike (act.run st) (act.run other) := by
  have hin := act.run_ends hends h.endsAlike
  have hstatement := Act.statement_run hends
  generalize act.run other = last' at hin
  generalize act.run st = last at hin hstatement
  have hopen : last.statement.commentOpen = false := by rw [hstatement]
  cases hin with
  | @nothing used hnone _ =>
      have hsame := LaidAlike.closed used hopen
      have heq : last.onto other.declarations = last := by rw [h.declarations_eq, ← hnone]; rfl
      rwa [heq]
  | @declared used names kind bases hsome _ =>
      have hsame := LaidAlike.closed used hopen
      have heq : last.onto (other.declarations ++ [other.made names kind bases]) = last := by
        rw [h.declarations_eq, h.made_eq, ← hsome]
        rfl
      rwa [heq]

theorem run_goes {act : Act} (hgoes : ¬act.Ends st) (h : LaidAlike st other) :
    LaidAlike (act.run st) (act.run other) := by
  have hgoes' : ¬act.Ends other := mt (h.endsAlike.ends act).1 hgoes
  cases h with
  | same => exact .same
  | closed used hopen =>
      cases act with
      | comment s text =>
          rw [Act.run, Act.run, State.readComment_onLine]
          exact .same
      | directive | write | attributes => exact .same
      | openBrace =>
          rw [Act.run, Act.run, State.braced_of_goes hgoes, State.braced_of_goes hgoes']
          exact .same
      | blank c =>
          rw [Act.run, Act.run, State.blank_eq, State.blank_eq, State.endLine_onLine hopen,
            State.space_onLine]
          split
          · exact .same
          · have hspace : st.space.statement.commentOpen = st.statement.commentOpen := by
              unfold State.space
              split <;> rfl
            exact .closed used (hspace.trans hopen)
      | semicolon | closeBrace => exact absurd trivial hgoes
  | filled commentOpen used hfilled =>
      cases act with
      | comment s text =>
          obtain ⟨o, hst⟩ := State.readComment_header hfilled s text
          obtain ⟨o', hother⟩ := @State.readComment_header
            { st with statement := { st.statement with commentOpen }, lineUsed := used }
            hfilled s text
          rw [Act.run, Act.run, hst, hother]
          exact gathered hfilled [] o o' true true
      | directive => exact .filled commentOpen true hfilled
      | write text => exact gathered hfilled text _ commentOpen true true
      | attributes inner => exact .same
      | openBrace =>
          rw [Act.run, Act.run, State.braced_of_goes hgoes, State.braced_of_goes hgoes']
          exact gathered hfilled _ _ commentOpen true true
      | blank c =>
          obtain ⟨o, hst⟩ := State.blank_header hfilled c
          obtain ⟨o', hother⟩ := @State.blank_header
            { st with statement := { st.statement with commentOpen }, lineUsed := used }
            hfilled c
          rw [Act.run, Act.run, hst, hother]
          exact gathered hfilled _ o o' _ _
      | semicolon | closeBrace => exact absurd trivial hgoes

/-- Two such scans come to the same, and fail at the same place. -/
theorem scanFrom_eq (h : LaidAlike st other) (s : List Char) : scanFrom other s = scanFrom st s := by
  induction hn : s.length using Nat.strong_induction_on generalizing st other s with
  | _ n ih =>
      cases s with
      | nil => rw [scanFrom, scanFrom, h.endsAlike.scopes, h.declarations_eq]
      | cons c rest =>
          rw [scanFrom_cons, scanFrom_cons]
          cases hnext : st.next c rest with
          | error stop => rw [State.next_error h.endsAlike.toAlike hnext]
          | ok found =>
              obtain ⟨st', after⟩ := found
              obtain ⟨act, rfl, -, -, hother⟩ := State.next_act hnext
              rw [hother _ h.endsAlike.toAlike]
              have hlen := State.next_length hnext
              have halike : LaidAlike (act.run st) (act.run other) := by
                by_cases hends : act.Ends st
                · exact h.run_ends hends
                · exact h.run_goes hends
              refine ih after.length ?_ halike after rfl
              rw [← hn, List.length_cons]
              exact Nat.lt_succ_of_le hlen

end LaidAlike

/-! ## Headers that scans come to -/

theorem State.header_readComment (st : State) (s text : List Char) :
    (st.readComment s text).statement.header = st.statement.header := by
  have hline : (st.lineComment text).statement.header = st.statement.header := by
    unfold lineComment
    dsimp only
    split
    · split
      · rfl
      · split <;> rfl
    · rfl
  have hblock : (st.blockComment text).statement.header = st.statement.header := by
    unfold blockComment
    dsimp only
    split <;> rfl
  rw [readComment_eq]
  split
  · rfl
  · split
    · exact hline
    · split
      · rfl
      · split
        · exact hblock
        · rfl

/-- A header is either empty or holds more than blanks. -/
theorem Act.filled_run {act : Act} {st : State} (hfits : act.Fits st)
    (h : st.statement.header = [] ∨ st.headerBlank = false) :
    (act.run st).statement.header = [] ∨ (act.run st).headerBlank = false := by
  by_cases hends : act.Ends st
  · exact .inl (congrArg Statement.header (Act.statement_run hends))
  · cases act with
    | comment s text =>
        have hheader := st.header_readComment s text
        rw [Act.run, State.headerBlank, hheader]
        exact h
    | directive | attributes => exact h
    | write text =>
        refine .inr ?_
        have hfilled : allBlank text = false := hfits
        simp only [Act.run, State.headerBlank, State.write, State.setHeader, allBlank,
          List.all_append] at hfilled ⊢
        rw [hfilled, Bool.and_false]
    | openBrace =>
        refine .inr ?_
        have hbraces : allBlank "\x7b\x7d ".toList = false := by decide
        rw [allBlank] at hbraces
        rw [Act.run, State.braced_of_goes hends]
        simp only [State.headerBlank, State.write, State.setHeader, allBlank, List.all_append,
          hbraces, Bool.and_false]
    | blank c =>
        rcases h with hempty | hfilled
        · exact .inl (header_blank hempty c)
        · obtain ⟨o, hblank⟩ := State.blank_header hfilled c
          rw [Act.run, hblank]
          exact .inr (State.headerBlank_gathered hfilled _ _ _)
    | semicolon | closeBrace => exact absurd trivial hends

theorem ComesTo.filled {st last : State} {s r : List Char} (h : ComesTo st s last r)
    (hst : st.statement.header = [] ∨ st.headerBlank = false) :
    last.statement.header = [] ∨ last.headerBlank = false := by
  induction h with
  | here => exact hst
  | step hnext _ ih =>
      obtain ⟨act, rfl, hfits, -, -⟩ := State.next_act hnext
      exact ih (Act.filled_run hfits hst)

/-- A run of blanks in a header is one space. -/
theorem scanFrom_blanks {st : State} (h : st.headerBlank = false) {run : List Char}
    (hne : run ≠ []) (hrun : allBlank run = true) (r : List Char) :
    ∃ o u, scanFrom st (run ++ r) =
      scanFrom (st.gathered (if st.statement.header.getLast? == some ' ' then [] else [' ']) o u) r := by
  induction run generalizing st with
  | nil => exact absurd rfl hne
  | cons c run ih =>
      rw [allBlank, List.all_cons, Bool.and_eq_true] at hrun
      obtain ⟨o, hblank⟩ := State.blank_header h c
      rw [List.cons_append, scanFrom_blank hrun.1, hblank]
      generalize hspace : (if st.statement.header.getLast? == some ' ' then [] else [' ']) = space
      by_cases hlast : run = []
      · subst hlast
        exact ⟨o, _, rfl⟩
      · obtain ⟨o', u', hrest⟩ := ih (State.headerBlank_gathered h space o (c != '\n' && st.lineUsed))
          hlast hrun.2
        have hends : (st.statement.header ++ space).getLast? = some ' ' := by
          rw [← hspace]
          split
          · rename_i hlast
            rw [List.append_nil]
            exact beq_iff_eq.1 hlast
          · rw [List.getLast?_concat]
        refine ⟨o', u', ?_⟩
        rw [hrest]
        simp only [State.gathered, hends, beq_self_eq_true, if_true, List.append_nil]

/-- So any two runs of blanks come to the same. -/
theorem scanFrom_blanks_eq {st : State} (h : st.headerBlank = false) {run run' : List Char}
    (hrun : run ≠ [] ∧ allBlank run = true) (hrun' : run' ≠ [] ∧ allBlank run' = true)
    (r : List Char) : scanFrom st (run' ++ r) = scanFrom st (run ++ r) := by
  obtain ⟨o, u, hread⟩ := scanFrom_blanks h hrun.1 hrun.2 r
  obtain ⟨o', u', hread'⟩ := scanFrom_blanks h hrun'.1 hrun'.2 r
  rw [hread, hread']
  exact (LaidAlike.gathered h _ o o' u u').scanFrom_eq r

/-- A line comment in a header goes up to the first line break of the blanks behind it. -/
theorem scanFrom_lineComment {st : State} (h : st.headerBlank = false) {text run : List Char}
    (htext : '\n' ∉ text) (hline : '\n' ∈ run) (hrun : allBlank run = true) (r : List Char) :
    ∃ o u, scanFrom st ("//".toList ++ text ++ (run ++ r)) =
      scanFrom (st.gathered [] o u) (['\n'] ++ r) := by
  obtain ⟨w, w', rfl, hw⟩ := List.eq_append_cons_of_mem hline
  have hbreak : '\n' ∉ "//".toList ++ text ++ w := by simp [htext, hw]
  have hcomment : afterComment? ("//".toList ++ text ++ (w ++ '\n' :: w' ++ r)) =
      some (.ok ('\n' :: w' ++ r)) := by
    rw [List.cons_append, ← dropLine_append hbreak (w' ++ r)]
    simp [afterComment?]
  obtain ⟨o, u, hread⟩ := scanFrom_comment h hcomment
  rw [allBlank, List.all_append, Bool.and_eq_true] at hrun
  exact ⟨o, u, hread.trans (scanFrom_blanks_eq (State.headerBlank_gathered h [] o u)
    ⟨List.cons_ne_nil _ _, rfl⟩ ⟨List.cons_ne_nil _ _, hrun.2⟩ r)⟩

theorem scanFrom_lineComment_eq {st : State} (h : st.headerBlank = false)
    {text run run' : List Char} (htext : '\n' ∉ text) (hrun : '\n' ∈ run ∧ allBlank run = true)
    (hrun' : '\n' ∈ run' ∧ allBlank run' = true) (r : List Char) :
    scanFrom st ("//".toList ++ text ++ (run' ++ r)) =
      scanFrom st ("//".toList ++ text ++ (run ++ r)) := by
  obtain ⟨o, u, hread⟩ := scanFrom_lineComment h htext hrun.1 hrun.2 r
  obtain ⟨o', u', hread'⟩ := scanFrom_lineComment h htext hrun'.1 hrun'.2 r
  rw [hread, hread']
  exact (LaidAlike.gathered h [] o o' u u').scanFrom_eq _

theorem ComesTo.unique {st last last' : State} {s r : List Char} (h : ComesTo st s last r)
    (h' : ComesTo st s last' r) : last = last' := by
  induction h with
  | here =>
      cases h' with
      | here => rfl
      | step hnext hcomes =>
          exact absurd (Nat.lt_of_lt_of_le (Nat.lt_succ_of_le (State.next_length hnext))
            hcomes.length_le) (by simp)
  | step hnext hcomes ih =>
      cases h' with
      | here =>
          exact absurd (Nat.lt_of_lt_of_le (Nat.lt_succ_of_le (State.next_length hnext))
            hcomes.length_le) (by simp)
      | step hnext' hcomes' =>
          cases hnext.symm.trans hnext'
          exact ih hcomes'

theorem ComesTo.snoc {st mid last : State} {c : Char} {s rest r : List Char}
    (h : ComesTo st s mid (c :: rest)) (hnext : mid.next c rest = .ok (last, r)) :
    ComesTo st s last r := by
  generalize ht : c :: rest = t at h
  induction h with
  | here =>
      subst ht
      exact .step hnext .here
  | step hfirst _ ih => exact .step hfirst (ih hnext ht)

/-- In a header it is a comment that ends with its line. -/
theorem EndsLine.lineComment {st last : State} {s r : List Char} (h : EndsLine st s r)
    (hcomes : ComesTo st s last r) (hlast : last.headerBlank = false) :
    ∃ mid text, ComesTo st s mid ("//".toList ++ text ++ r) ∧ '\n' ∉ text ∧
      mid.statement.header = last.statement.header ∧ Stops (· ≠ '\n') r := by
  obtain ⟨mid, mid', c, rest, hmid, hreads, hnext⟩ := h
  obtain rfl : last = mid' := hcomes.unique (hmid.snoc hnext)
  rcases hreads with ⟨t, ht⟩ | ⟨hhash, hblank⟩
  · obtain ⟨rfl, rfl⟩ := List.cons.inj ht
    have hcomment : afterComment? ('/' :: '/' :: t) = some (.ok (dropLine t)) := rfl
    obtain ⟨rfl, rfl⟩ := Prod.mk.inj (Except.ok.inj ((State.next_comment hcomment).symm.trans hnext))
    refine ⟨mid, takeLine t, ?_, fun hmem => ?_, (mid.header_readComment _ _).symm,
      stops_dropWhile _ t⟩
    · rw [List.append_assoc, takeLine, dropLine, List.takeWhile_append_dropWhile]
      exact hmid
    · rw [takeLine] at hmem
      simpa using List.mem_takeWhile_imp hmem
  · obtain rfl : c = '#' := Option.some.inj hhash
    have hdirective : mid.next '#' rest = .ok (mid.touchLine, dropLine rest) :=
      State.next_eq_ok_iff.2 (.directive rfl hblank)
    obtain ⟨rfl, rfl⟩ := Prod.mk.inj (Except.ok.inj (hdirective.symm.trans hnext))
    exact absurd (hblank.symm.trans hlast) (Bool.noConfusion ·)

/-! ## Layouts -/

/-- The error with this line instead of its own. -/
def Fault.atLine (line : Nat) : Fault → Fault
  | unbalancedBrace _ => .unbalancedBrace line
  | unterminated what _ => .unterminated what line
  | unclosedScope count => .unclosedScope count

/-- Texts that are scanned alike have the same declarations or the same error, but for its
line. -/
theorem scan_eq_of_scanFrom {source source' : List Char}
    (h : scanFrom {} source' = scanFrom {} source) :
    (scan (String.ofList source')).mapError (Fault.atLine 0) =
      (scan (String.ofList source)).mapError (Fault.atLine 0) := by
  simp only [scan, String.toList_ofList, h]
  cases scanFrom {} source with
  | ok ds => rfl
  | error stop =>
      cases stop with
      | unclosed | unbalanced | openScopes => rfl

/-- In a header any run of blanks can stand for any other, line breaks included.  Only a line
comment in front of it has to keep a line break. -/
theorem scan_replace_blanks {pre run run' post : List Char} {st : State}
    (hcomes : ComesTo {} (pre ++ (run ++ post)) st (run ++ post))
    (hheader : st.statement.header ≠ [])
    (hrun : run ≠ [] ∧ allBlank run = true) (hrun' : run' ≠ [] ∧ allBlank run' = true)
    (hline : EndsLine {} (pre ++ (run ++ post)) (run ++ post) → '\n' ∈ run') :
    (scan (String.ofList (pre ++ (run' ++ post)))).mapError (Fault.atLine 0) =
      (scan (String.ofList (pre ++ (run ++ post)))).mapError (Fault.atLine 0) := by
  apply scan_eq_of_scanFrom
  have hfilled : st.headerBlank = false := (hcomes.filled (.inl rfl)).resolve_left hheader
  rw [scanFrom_comesTo hcomes]
  obtain ⟨edge, x, rfl⟩ := List.exists_cons_of_ne_nil hrun.1
  obtain ⟨edge', y, rfl⟩ := List.exists_cons_of_ne_nil hrun'.1
  have hblanks := hrun.2
  have hblanks' := hrun'.2
  rw [allBlank, List.all_cons, Bool.and_eq_true] at hblanks hblanks'
  have hedge : IsEdge edge := ⟨.inr hblanks.1⟩
  have hedge' : IsEdge edge' := ⟨.inr hblanks'.1⟩
  by_cases hends : EndsLine {} (pre ++ (edge :: x ++ post)) (edge :: x ++ post)
  · -- The comment is read again, up to a line break of the other run.
    obtain ⟨mid, text, hmid, htext, hsame, hbreak⟩ := hends.lineComment hcomes hfilled
    obtain rfl : edge = '\n' := by simpa using hbreak edge rfl
    have hmid' : ComesTo {} (pre ++ (edge' :: y ++ post)) mid
        ("//".toList ++ text ++ (edge' :: y ++ post)) :=
      @ComesTo.replace '\n' edge' _ _ _ _ pre ("//".toList ++ text) (x ++ post) (y ++ post) hmid
        (.inr (hsame ▸ hheader)) (fun h => absurd h (List.cons_ne_nil _ _))
    rw [← scanFrom_comesTo hcomes, scanFrom_comesTo hmid, scanFrom_comesTo hmid']
    rw [State.headerBlank, ← hsame] at hfilled
    exact scanFrom_lineComment_eq hfilled htext ⟨List.mem_cons_self, hrun.2⟩
      ⟨hline hends, hrun'.2⟩ post
  · have hother : ComesTo {} (pre ++ (edge' :: y ++ post)) st (edge' :: y ++ post) :=
      @ComesTo.replace edge edge' _ _ _ _ pre [] (x ++ post) (y ++ post) hcomes (.inr hheader)
        fun _ _ _ => hends
    rw [scanFrom_comesTo hother]
    exact scanFrom_blanks_eq hfilled hrun hrun' post

/-- A class behind the header of which stands a comment. -/
theorem comesTo_classComment (post : List Char) :
    ∃ st : State, ComesTo {} ("class A // x".toList ++ ('\n' :: post)) st ('\n' :: post) ∧
      st.statement.header = "class A ".toList := by
  have hwrite : ComesTo {} ("class A // x".toList ++ ('\n' :: post)) _
      ("// x".toList ++ ('\n' :: post)) := comesTo_walk (n := 8) rfl
  have hcomment : afterComment? ("// x".toList ++ ('\n' :: post)) = some (.ok ('\n' :: post)) := rfl
  exact ⟨_, hwrite.snoc (State.next_comment hcomment), State.header_readComment _ _ _⟩

theorem scan_replace_blanks_class :
    ∃ st : State, ComesTo {} ("class A // x".toList ++ ("\n".toList ++ "\x7b \x7d".toList)) st
        ("\n".toList ++ "\x7b \x7d".toList) ∧ st.statement.header ≠ [] ∧
      '\n' ∈ " \n\n\t".toList ∧
      scan (String.ofList ("class A // x".toList ++ (" \n\n\t".toList ++ "\x7b \x7d".toList))) =
        .ok [{ names := ["A"], kind := .classType }] := by
  obtain ⟨st, hcomes, hheader⟩ := comesTo_classComment "\x7b \x7d".toList
  have hne : st.statement.header ≠ [] := by rw [hheader]; exact List.cons_ne_nil _ _
  refine ⟨st, hcomes, hne, by decide, ?_⟩
  have hplain : scan "class A // x\n\x7b \x7d" = .ok [{ names := ["A"], kind := .classType }] :=
    scan_eq_ok (by decide +kernel)
  have hsame := @scan_replace_blanks "class A // x".toList "\n".toList " \n\n\t".toList
    "\x7b \x7d".toList st hcomes hne ⟨by decide, by decide⟩ ⟨by decide, by decide⟩
    fun _ => by decide
  exact mapError_eq_ok.1 (hsame.trans (mapError_eq_ok.2 hplain))

/-- Without a line break the brace becomes part of the comment. -/
theorem scan_replace_blanks_lineComment :
    (∃ st : State, ComesTo {} ("class A // x".toList ++ ("\n".toList ++ "\x7b \x7d".toList)) st
        ("\n".toList ++ "\x7b \x7d".toList) ∧ st.statement.header ≠ []) ∧
      scan "class A // x\n\x7b \x7d" = .ok [{ names := ["A"], kind := .classType }] ∧
      scan "class A // x \x7b \x7d" = .ok [] := by
  obtain ⟨st, hcomes, hheader⟩ := comesTo_classComment "\x7b \x7d".toList
  have hne : st.statement.header ≠ [] := by rw [hheader]; exact List.cons_ne_nil _ _
  exact ⟨⟨st, hcomes, hne⟩, scan_eq_ok (by decide +kernel), scan_eq_ok (by decide +kernel)⟩

end Declaration
end DocPages
