/-
Attribute sections for the assembly or the module, in front of a statement.

Such a section belongs to no declaration, but like every section it seals the statement
behind it: a comment that follows counts for nothing.  All that changes is the declaration
that this statement makes: `scan_insert_section`.
-/
import DocPages.Proofs.Declaration.Statements

namespace DocPages
namespace Declaration

open Text

/-! ## Sections -/

/-- Whole literals, square brackets in pairs and other characters.  No quote follows a string
directly. -/
inductive SectionText : List Char → Prop
  | nil : SectionText []
  | plain {c : Char} {s : List Char} :
      c ∉ "'\"@$[]".toList → SectionText s → SectionText (c :: s)
  | mark {c : Char} {s : List Char} :
      isStringMark c = true → NoQuote s → Stops isStringMark s → SectionText s →
      SectionText (c :: s)
  | string {t s : List Char} :
      StringLiteral t → NoQuote s → SectionText s → SectionText (t ++ s)
  | char {t s : List Char} :
      Quoted '\'' t → SectionText s → SectionText ('\'' :: (t ++ '\'' :: s))
  | brackets {t s : List Char} :
      SectionText t → SectionText s → SectionText ('[' :: (t ++ ']' :: s))

theorem section_plain {run s : List Char}
    (hrun : (run.all fun c => !"'\"@$[]".toList.contains c) = true) (hs : SectionText s) :
    SectionText (run ++ s) := by
  induction run with
  | nil => exact hs
  | cons c run ih =>
      rw [List.all_cons, Bool.and_eq_true, Bool.not_eq_true'] at hrun
      refine .plain (fun hmem => ?_) (ih hrun.2)
      rw [List.contains_iff_mem.2 hmem] at hrun
      cases hrun.1

theorem toSectionEnd_pass {opens rest : List Char} {depth : Nat} {c : Char}
    (hl : afterLiteral? (c :: rest) = none) (hopen : c ≠ '[') (hclose : c ≠ ']') :
    toSectionEnd opens depth (c :: rest) = toSectionEnd opens depth rest := by
  rw [toSectionEnd_code hl, if_neg hopen, if_neg hclose]

/-- A section ends at its own bracket. -/
theorem toSectionEnd_text {s : List Char} (h : SectionText s) (opens : List Char) (depth : Nat)
    (r : List Char) :
    toSectionEnd opens depth (s ++ ']' :: r) = toSectionEnd opens depth (']' :: r) := by
  induction h generalizing depth r with
  | nil => rfl
  | @plain c s hc _ ih =>
      simp only [String.reduceToList, List.mem_cons, List.not_mem_nil, or_false, not_or] at hc
      have hm : isStringMark c = false := by simp [isStringMark, hc]
      rw [List.cons_append, toSectionEnd_pass (afterLiteral?_of_plain hc.1 hc.2.1 hm _)
        hc.2.2.2.2.1 hc.2.2.2.2.2, ih]
  | @mark c s hm hq hs _ ih =>
      have hc : ∀ d, isStringMark d = false → c ≠ d := by
        rintro d hd rfl
        rw [hm] at hd
        cases hd
      rw [List.cons_append, toSectionEnd_pass (afterLiteral?_eq_none (hc _ rfl)
        (atString_mark hm (stops_append hq (stops_cons rfl _))
          (stops_append hs (stops_cons rfl _)))) (hc _ rfl) (hc _ rfl), ih]
  | string ht hs _ ih =>
      rw [List.append_assoc, ht.passed
        (fun _ hl => toSectionEnd_pass hl (by decide) (by decide))
        (fun _ _ hl => toSectionEnd_literal hl) (stops_append hs (stops_cons rfl _)), ih]
  | char ht _ ih =>
      simp only [List.cons_append, List.append_assoc]
      rw [toSectionEnd_literal (afterLiteral?_char ht _), ih]
  | brackets _ _ iht ihs =>
      have hcode : ∀ c ∈ "[]".toList, ∀ s, afterLiteral? (c :: s) = none := by
        intro c hc s
        simp only [String.reduceToList, List.mem_cons, List.not_mem_nil, or_false] at hc
        rcases hc with rfl | rfl <;> exact afterLiteral?_of_plain (by decide) (by decide) rfl s
      simp only [List.cons_append, List.append_assoc]
      rw [toSectionEnd_code (hcode '[' (by decide) _), if_pos rfl, iht,
        toSectionEnd_code (hcode ']' (by decide) _)]
      exact ihs depth r

theorem readSection_text {s : List Char} (h : SectionText s) (opens r : List Char) :
    readSection opens (s ++ ']' :: r) = .ok (s, r) := by
  refine readSection_eq_ok.2 ⟨']' :: r, ?_, ?_, rfl⟩
  · rw [toSectionEnd_text h, toSectionEnd_code (afterLiteral?_of_plain (by decide) (by decide) rfl r)]
    rfl
  · rw [List.length_append, Nat.add_sub_cancel, List.take_left]

/-- What stands between the brackets of a section with a target. -/
def targeted (target : String) (text : List Char) : List Char :=
  target.toList ++ ": ".toList ++ text

def sectionLine (target : String) (text : List Char) : List Char :=
  '[' :: (targeted target text ++ "]\n".toList)

section Target

variable {target : String} (ht : target ∈ ["assembly", "module"])
include ht

theorem targeted_text {text : List Char} (h : SectionText text) :
    SectionText (targeted target text) := by
  rw [targeted]
  refine section_plain ?_ h
  simp only [List.mem_cons, List.not_mem_nil, or_false] at ht
  rcases ht with rfl | rfl <;> decide

/-- On one line the target is told, and then the section leaves nothing. -/
theorem readAttributes_targeted {text : List Char} (hline : '\n' ∉ text) :
    readAttributes (targeted target text) = [] := by
  have hcolon : trimStart (':' :: ' ' :: text) = ':' :: ' ' :: text :=
    trimStart_of_stops (stops_cons (by decide) _)
  have htarget : readTarget (targeted target text) = some (target, ' ' :: text) := by
    have htrim : trimStart (targeted target text) = targeted target text := by
      simp only [List.mem_cons, List.not_mem_nil, or_false] at ht
      rcases ht with rfl | rfl <;> exact trimStart_of_stops (stops_cons (by decide) _)
    rw [readTarget, htrim, targeted]
    simp only [List.mem_cons, List.not_mem_nil, or_false] at ht
    rcases ht with rfl | rfl <;> simp [targets, List.findSome?, stripStart?, hcolon, hline]
  simp only [List.mem_cons, List.not_mem_nil, or_false] at ht
  rw [readAttributes, htarget]
  exact if_pos ht

end Target

/-! ## Statements that are sealed -/

/-- What a section in front of its statement does to a declaration: it has no comment, and the
attributes of the section are its first. -/
def sealed (attributes : List Attribute) (d : Declaration) : Declaration :=
  { d with rawComment := "", attributes := attributes ++ d.attributes }

namespace State

/-- A section was read in front of the statement. -/
def afterSection (st : State) (attributes : List Attribute) : State :=
  { st with
    statement := { st.statement with
      comment := none
      commentOpen := false
      attributed := true
      attributes := attributes ++ st.statement.attributes } }

variable {attributes : List Attribute}

theorem lineComment_afterSection (st : State) (text : List Char) :
    (st.afterSection attributes).lineComment text =
      (st.lineComment text).afterSection attributes := by
  have haccepts : (st.afterSection attributes).acceptsComment = false := Bool.and_false _
  unfold lineComment
  rw [haccepts]
  cases st.acceptsComment with
  | false => rfl
  | true =>
      cases st.statement.comment with
      | none => rfl
      | some comment => cases st.statement.commentOpen <;> rfl

theorem blockComment_afterSection (st : State) (text : List Char) :
    (st.afterSection attributes).blockComment text =
      (st.blockComment text).afterSection attributes := by
  have haccepts : (st.afterSection attributes).acceptsComment = false := Bool.and_false _
  unfold blockComment
  rw [haccepts]
  cases st.acceptsComment && st.statement.comment.isNone <;> rfl

theorem readComment_afterSection (st : State) (s text : List Char) :
    (st.afterSection attributes).readComment s text =
      (st.readComment s text).afterSection attributes := by
  rw [readComment_eq, readComment_eq, lineComment_afterSection, blockComment_afterSection]
  simp only [apply_ite fun st : State => st.afterSection attributes]
  rfl

theorem blank_afterSection (st : State) (c : Char) :
    (st.afterSection attributes).blank c = (st.blank c).afterSection attributes := by
  have hline : (st.afterSection attributes).endLine = st.endLine.afterSection attributes := by
    have hused : (st.afterSection attributes).lineUsed = st.lineUsed := rfl
    unfold endLine
    rw [hused]
    split <;> rfl
  have hspace : ∀ st : State,
      (st.afterSection attributes).space = st.space.afterSection attributes := by
    intro st
    have hheader : (st.afterSection attributes).statement.header = st.statement.header := rfl
    unfold space
    rw [hheader]
    split <;> rfl
  rw [blank_eq, blank_eq, hline, hspace, hspace]
  split <;> rfl

end State

/-- While the statement goes on, it stays sealed. -/
theorem Act.run_afterSection {act : Act} {st : State} (h : ¬act.Ends st)
    (attributes : List Attribute) :
    act.run (st.afterSection attributes) = (act.run st).afterSection attributes := by
  cases act with
  | comment s text => exact st.readComment_afterSection s text
  | attributes inner =>
      have happend := List.append_assoc attributes st.statement.attributes (readAttributes inner)
      simp only [Act.run, State.attributeSection, State.afterSection, happend]
  | openBrace =>
      have hother : ¬Act.openBrace.Ends (st.afterSection attributes) := h
      rw [Act.run, Act.run, State.braced_of_goes h, State.braced_of_goes hother]
      rfl
  | blank c => exact st.blank_afterSection c
  | directive | write => rfl
  | semicolon | closeBrace => exact absurd trivial h

theorem carried_afterSection (attributes : List Attribute) :
    Carried fun st other => other = st.afterSection attributes where
  alike h := h ▸ ⟨⟨rfl, rfl⟩, rfl, rfl⟩
  lineUsed h := h ▸ rfl
  run _ hgoes h := h ▸ Act.run_afterSection hgoes attributes

/-- What waited before the statement is not looked at when the statement is over. -/
theorem scanFrom_afterSection {st : State} {s : List Char} {ds : List Declaration}
    (attributes : List Attribute) (h : scanFrom st s = .ok ds) :
    (∃ d more, Makes st s d ∧ ds = st.declarations ++ d :: more ∧
      scanFrom (st.afterSection attributes) s =
        .ok (st.declarations ++ d.sealed attributes :: more)) ∨
    (∀ d, ¬Makes st s d) ∧ scanFrom (st.afterSection attributes) s = .ok ds := by
  rcases scanFrom_related (carried_afterSection attributes) rfl h with
    ⟨last, _, names, kind, bases, more, rfl, hmakes, -, hds, hscan⟩ | ⟨hnone, more, rfl, hscan⟩
  · exact .inl ⟨_, more, hmakes, hds, hscan⟩
  · exact .inr ⟨hnone, hscan⟩

/-! ## Inserting a section -/

/-- The start of a line at which no statement has been begun, with the state there. -/
inductive StatementStart : List Char → List Char → State → Prop
  | first {post : List Char} : StatementStart [] post {}
  | line {pre post : List Char} {before : State} :
      ComesTo {} (pre ++ '\n' :: post) before ('\n' :: post) →
      (before.blank '\n').statement = {} →
      StatementStart (pre ++ ['\n']) post (before.blank '\n')

namespace StatementStart

variable {pre post : List Char} {st : State}

theorem statement_eq (h : StatementStart pre post st) : st.statement = {} := by
  cases h with
  | first => rfl
  | line _ hfresh => exact hfresh

theorem lineUsed_eq (h : StatementStart pre post st) : st.lineUsed = false := by
  cases h with
  | first => rfl
  | @line pre _ before _ _ =>
      rw [State.blank_eq, if_pos rfl, State.space]
      split <;> rfl

theorem scanFrom_eq (h : StatementStart pre post st) :
    scanFrom {} (pre ++ post) = scanFrom st post := by
  cases h with
  | first => rfl
  | line hcomes _ =>
      rw [List.append_assoc, List.singleton_append, scanFrom_comesTo hcomes,
        scanFrom_blank (c := '\n') (by decide)]

/-- Another text may start there, as long as it is no initializer. -/
theorem replace (h : StatementStart pre post st) {other : List Char}
    (hother : atAssignment other = false) : StatementStart pre other st := by
  cases h with
  | first => exact .first
  | line hcomes hfresh =>
      refine .line (hcomes.replace '\n' (q := []) (.inl ?_) fun _ _ h => absurd rfl h) hfresh
      exact (atAssignment_blank (p := ['\n']) (by decide) other).trans hother

end StatementStart

theorem scanFrom_sectionLine {st : State} (hfresh : st.statement = {}) (hline : st.lineUsed = false)
    {target : String} (ht : target ∈ ["assembly", "module"]) {text : List Char}
    (htext : SectionText text) (post : List Char) :
    scanFrom st (sectionLine target text ++ post) =
      scanFrom (st.afterSection (readAttributes (targeted target text))) post := by
  have hsplit : sectionLine target text ++ post =
      '[' :: (targeted target text ++ ']' :: '\n' :: post) := by
    rw [sectionLine, List.cons_append, List.append_assoc]
    rfl
  have hblank : st.headerBlank = true := by
    rw [State.headerBlank, hfresh]
    rfl
  have hstate : ∀ inner, (st.attributeSection inner).blank '\n' =
      st.afterSection (readAttributes inner) := by
    intro inner
    rw [State.blank_eq, if_pos rfl]
    simp only [State.attributeSection, State.endLine, State.space, State.afterSection, hfresh,
      hline, if_true, List.isEmpty_nil, Bool.true_or, List.nil_append, List.append_nil]
  rw [hsplit, scanFrom_section hblank (readSection_text (targeted_text ht htext) _ _),
    scanFrom_blank (c := '\n') (by decide), hstate]

theorem sealed_eq_self {d : Declaration} : d.sealed [] = d ↔ d.rawComment = "" := by
  constructor
  · exact fun h => (congrArg Declaration.rawComment h).symm
  · intro h
    rw [sealed, List.nil_append, ← h]

/-- Inserting a section for the assembly or the module in front of a statement changes at most
the declaration that the statement makes.  It loses its comment, which comes after the section
then, and keeps its attributes if the section is on one line. -/
theorem scan_insert_section {pre post : List Char} {st : State} (hstart : StatementStart pre post st)
    {target : String} (ht : target ∈ ["assembly", "module"]) {text : List Char}
    (htext : SectionText text) {ds : List Declaration}
    (h : scan (String.ofList (pre ++ post)) = .ok ds) :
    ∃ ds', scan (String.ofList (pre ++ (sectionLine target text ++ post))) = .ok ds' ∧
      ((∀ d, ¬Makes st post d) → ds' = ds) ∧
      (∀ d, Makes st post d → ∃ attributes more, ds = st.declarations ++ d :: more ∧
        ds' = st.declarations ++ { d with rawComment := "", attributes } :: more ∧
        ('\n' ∉ text → attributes = d.attributes)) ∧
      ('\n' ∉ text → (ds' = ds ↔ ∀ d, Makes st post d → d.rawComment = "")) := by
  have hbefore : scanFrom st post = .ok ds := by
    rw [scan, mapError_eq_ok, String.toList_ofList, hstart.scanFrom_eq] at h
    exact h
  have hother : atAssignment (sectionLine target text ++ post) = false := by
    have hopen : trimStart (sectionLine target text ++ post) = sectionLine target text ++ post :=
      trimStart_of_stops (stops_cons (by decide) _)
    rw [atAssignment, hopen]
    rfl
  have hafter : ∀ ds', scanFrom (st.afterSection (readAttributes (targeted target text))) post =
      .ok ds' → scan (String.ofList (pre ++ (sectionLine target text ++ post))) = .ok ds' := by
    intro ds' hds'
    rw [scan, mapError_eq_ok, String.toList_ofList, (hstart.replace hother).scanFrom_eq,
      scanFrom_sectionLine hstart.statement_eq hstart.lineUsed_eq ht htext, hds']
  rcases scanFrom_afterSection (readAttributes (targeted target text)) hbefore with
    ⟨d, more, hmakes, rfl, hscan⟩ | ⟨hnone, hscan⟩
  · refine ⟨_, hafter _ hscan, fun hnone => absurd hmakes (hnone d), fun e he => ?_,
      fun hline => ?_⟩
    · cases hmakes.unique he
      refine ⟨_, more, rfl, rfl, fun hline => ?_⟩
      rw [readAttributes_targeted ht hline, List.nil_append]
    · rw [List.append_cancel_left_eq, List.cons.injEq, readAttributes_targeted ht hline,
        sealed_eq_self]
      constructor
      · exact fun hsame e he => hmakes.unique he ▸ hsame.1
      · exact fun hsame => ⟨hsame d hmakes, rfl⟩
  · exact ⟨_, hafter _ hscan, fun _ => rfl, fun d hd => absurd hd (hnone d),
      fun _ => iff_of_true rfl fun d hd => absurd hd (hnone d)⟩

/-- A class with a comment. -/
def commentedClass : List Char := "/// a\nclass C \x7b \x7d\n".toList

theorem scan_insert_section_class :
    ∃ st : State, StatementStart "; \n".toList commentedClass st ∧
      "module" ∈ ["assembly", "module"] ∧ SectionText "X(\n1)".toList ∧
      scan (String.ofList ("; \n".toList ++ commentedClass)) =
        .ok [{ names := ["C"], kind := .classType, rawComment := "/// a" }] ∧
      ∃ ds', scan (String.ofList ("; \n".toList ++
        (sectionLine "module" "X(\n1)".toList ++ commentedClass))) = .ok ds' := by
  have hcomes : ComesTo {} ("; ".toList ++ '\n' :: commentedClass) _ ('\n' :: commentedClass) :=
    .step rfl (.step rfl .here)
  have hstart := StatementStart.line hcomes rfl
  have htarget : "module" ∈ ["assembly", "module"] := by decide
  have htext : SectionText "X(\n1)".toList := by
    rw [← List.append_nil "X(\n1)".toList]
    exact section_plain (by decide) .nil
  have hscan : scan (String.ofList ("; \n".toList ++ commentedClass)) =
      .ok [{ names := ["C"], kind := .classType, rawComment := "/// a" }] :=
    scan_eq_ok (by decide +kernel)
  obtain ⟨ds', hds', -⟩ := scan_insert_section hstart htarget htext hscan
  exact ⟨_, hstart, htarget, htext, hscan, ds', hds'⟩

/-- The comment of the class is lost. -/
theorem scan_insert_section_lostComment :
    scan "/// a\nclass C \x7b \x7d\n" =
        .ok [{ names := ["C"], kind := .classType, rawComment := "/// a" }] ∧
      scan "[assembly: X]\n/// a\nclass C \x7b \x7d\n" =
        .ok [{ names := ["C"], kind := .classType }] :=
  ⟨scan_eq_ok (by decide +kernel), scan_eq_ok (by decide +kernel)⟩

end Declaration
end DocPages
