/-
The steps of a scan, one for each thing that may come next, and how the text of a
header is gathered.
-/
import DocPages.Proofs.Declaration.Headers
import DocPages.Proofs.Declaration.Transitions
import DocPages.Proofs.Text.Pieces

namespace DocPages
namespace Declaration

open Text

/-! ## Single steps -/

section Step

variable {st : State} {c : Char} {rest : List Char}

theorem scanFrom_blank (hc : isBlank c = true) :
    scanFrom st (c :: rest) = scanFrom (st.blank c) rest :=
  scanFrom_step (st.step_blank hc rest)

theorem scanFrom_semicolon : scanFrom st (';' :: rest) = scanFrom st.semicolon rest :=
  scanFrom_step (State.CodeStep.semicolon.step (by decide))

theorem scanFrom_brace {st' : State} {after : List Char}
    (h : st.openBrace rest = .ok (st', after)) :
    scanFrom st ('\x7b' :: rest) = scanFrom st' after := by
  rw [State.openBrace_eq] at h
  obtain ⟨after', hpass, heq⟩ := map_eq_ok.1 h
  cases heq
  exact scanFrom_step ((State.CodeStep.openBrace hpass).step (by decide))

theorem scanFrom_close {scope : Scope} {outer : List Scope} (h : st.scopes = scope :: outer) :
    scanFrom st ('\x7d' :: rest) =
      scanFrom { st with scopes := outer }.endStatement.touchLine rest :=
  scanFrom_step ((State.CodeStep.closeBrace h).step (by decide))

theorem scanFrom_section {inner after : List Char} (hb : st.headerBlank = true)
    (h : readSection ('[' :: rest) rest = .ok (inner, after)) :
    scanFrom st ('[' :: rest) = scanFrom (st.attributeSection inner) after :=
  scanFrom_step ((State.CodeStep.attributes hb h).step (by decide))

/-- A header character is kept, unless it opens an attribute section. -/
theorem scanFrom_headerChar (hc : isHeaderChar c = true) (hs : c ≠ ' ')
    (hb : c = '[' → st.headerBlank = false) :
    scanFrom st (c :: rest) = scanFrom (st.write [c]) rest := by
  have hplain := of_isHeaderChar (p := fun c => c == ' ' || (c != '/' && c != '#' && c != '\x7b' &&
    c != '\x7d' && c != ';' && !isBlank c)) (by decide +kernel) hc
  simp [hs] at hplain
  exact scanFrom_step (.code (afterComment?_of_ne hplain.1.1.1.1.1 _) (by simp [hplain])
    (afterLiteral?_header hc _) (.write hplain.2 (by simp [hplain]) hb))

theorem scanFrom_doc {t : List Char} (hline : '\n' ∉ t) (hslash : Stops (· == '/') t) :
    scanFrom st ('/' :: '/' :: '/' :: (t ++ '\n' :: rest)) =
      scanFrom (st.lineComment ('/' :: '/' :: '/' :: t)) ('\n' :: rest) := by
  have hcomment : afterComment? ('/' :: '/' :: '/' :: (t ++ '\n' :: rest)) =
      some (.ok ('\n' :: rest)) := by
    have hline' : '\n' ∉ '/' :: t := by simp [hline]
    exact afterComment?_line hline' rest
  have hlen : ('/' :: '/' :: (t ++ '\n' :: rest)).length + 1 - ('\n' :: rest).length =
      ('/' :: '/' :: '/' :: t).length := by
    simp only [List.length_cons, List.length_append]
    omega
  have htake : ('/' :: '/' :: '/' :: (t ++ '\n' :: rest)).take
      (('/' :: '/' :: (t ++ '\n' :: rest)).length + 1 - ('\n' :: rest).length) =
        '/' :: '/' :: '/' :: t := by
    rw [hlen, ← List.cons_append, ← List.cons_append, ← List.cons_append, List.take_left]
  rw [scanFrom_cons, State.next]
  simp only [hcomment, htake, Except.bind]
  congr 1
  -- Four slashes would be a plain comment.
  cases t with
  | nil => rfl
  | cons d t =>
      have hd : d ≠ '/' := by simpa using hslash d rfl
      simp only [List.cons_append]
      split
      · rename_i e
        simp at e
        exact absurd e.1 hd
      · rfl
      · rename_i e
        simp at e
      · rename_i e
        simp at e
      · rename_i h _ _
        exact absurd rfl (h _)

end Step

/-! ## Gathering a header -/

theorem write_write (st : State) (a b : List Char) : (st.write a).write b = st.write (a ++ b) := by
  simp only [State.write, State.setHeader, List.append_assoc]

theorem blank_write {st : State} {w : List Char} (hst : st.statement.header = []) (hne : w ≠ [])
    (hw : w.getLast? ≠ some ' ') : (st.write w).blank ' ' = st.write (w ++ [' ']) := by
  have hheader : (st.write w).statement.header = w := by
    simp only [State.write, State.setHeader, hst, List.nil_append]
  have hskip : ((st.write w).statement.header.isEmpty ||
      (st.write w).statement.header.getLast? == some ' ') = false := by
    rw [hheader]
    simp [hne, hw]
  simp only [State.blank, Char.reduceEq, if_false, hskip, Bool.false_eq_true]
  simp only [State.write, State.setHeader, hst, List.nil_append]

theorem headerBlank_write {st : State} {w : List Char} (hst : st.statement.header = [])
    (hw : allBlank w = false) : (st.write w).headerBlank = false := by
  simpa only [State.headerBlank, State.write, State.setHeader, hst, List.nil_append] using hw

theorem allBlank_append {w : List Char} (h : allBlank w = false) (s : List Char) :
    allBlank (w ++ s) = false := by
  rw [allBlank, List.all_append]
  rw [allBlank] at h
  rw [h, Bool.false_and]

theorem scanFrom_run {run : List Char} (hrun : ∀ c ∈ run, isIdentChar c = true) (hne : run ≠ [])
    (st : State) (r : List Char) : scanFrom st (run ++ r) = scanFrom (st.write run) r := by
  induction run generalizing st with
  | nil => exact absurd rfl hne
  | cons c run ih =>
      have hc := hrun c List.mem_cons_self
      rw [List.cons_append, scanFrom_headerChar (isHeaderChar_of_isIdentChar hc)
        (ne_of_isIdentChar hc rfl) (fun e => absurd e (ne_of_isIdentChar hc rfl))]
      cases run with
      | nil => rfl
      | cons d run =>
          rw [ih (fun e he => hrun e (List.mem_cons_of_mem _ he)) (List.cons_ne_nil d run),
            write_write]
          rfl

/-- A phrase is added to a header as it stands. -/
theorem Phrase.scanFrom_append {banned : List (List Char)} {marks s : List Char}
    (h : Phrase banned marks s) (hm : marks ⊆ headerMarks) {st : State}
    (hst : st.statement.header = []) {w : List Char} (hw : allBlank w = false)
    (hspace : w.getLast? = some ' ' → Stops (· == ' ') s) (r : List Char) :
    scanFrom (st.write w) (s ++ r) = scanFrom (st.write (w ++ s)) r := by
  induction h generalizing w r with
  | nil => rw [List.nil_append, List.append_nil]
  | @word _ v s hv _ _ _ ih =>
      have hlast : (w ++ v).getLast? ≠ some ' ' :=
        getLast?_of_endsIn (endsIn_append (endsIn_of_forall hv.ne_nil hv.inside) w) rfl
      rw [List.append_assoc, scanFrom_run hv.inside hv.ne_nil, write_write,
        ih hm (allBlank_append hw _) (fun e => absurd e hlast), List.append_assoc]
  | @mark _ s c _ hc _ ih =>
      have hplain : isHeaderChar c = true ∧ c ≠ ' ' ∧ c ≠ '[' := by
        simp only [String.reduceToList, List.mem_cons, List.not_mem_nil, or_false] at hc
        rcases hc with rfl | rfl | rfl | rfl <;> decide
      rw [List.cons_append, scanFrom_headerChar hplain.1 hplain.2.1
        (fun e => absurd e hplain.2.2), write_write, ih hm (allBlank_append hw _),
        List.append_assoc, List.singleton_append]
      intro e
      rw [List.getLast?_concat] at e
      exact absurd (Option.some.inj e) hplain.2.1
  | @space _ s hs _ ih =>
      have hne : w ≠ [] := by
        rintro rfl
        cases hw
      have hlast : w.getLast? ≠ some ' ' := by
        intro e
        exact absurd (hspace e ' ' rfl) (by decide)
      rw [List.cons_append, scanFrom_blank (c := ' ') (by decide), blank_write hst hne hlast,
        ih hm (allBlank_append hw _) (fun _ => hs), List.append_assoc, List.singleton_append]
  | @brackets marks t s opening closing ho hb _ _ iht ih =>
      have hpair : (isHeaderChar opening = true ∧ opening ≠ ' ') ∧
          isHeaderChar closing = true ∧ closing ≠ ' ' ∧ closing ≠ '[' := by
        simp only [List.mem_cons, Prod.mk.injEq, List.not_mem_nil, or_false] at hb
        rcases hb with ⟨rfl, rfl⟩ | ⟨rfl, rfl⟩ | ⟨rfl, rfl⟩ <;> decide
      have hin : listMarks ⊆ headerMarks := fun c hc =>
        List.mem_cons_of_mem _ (List.mem_cons_of_mem _ hc)
      have hopen : (w ++ [opening]).getLast? ≠ some ' ' := by
        rw [List.getLast?_concat]
        exact fun e => hpair.1.2 (Option.some.inj e)
      have hclose : (w ++ [opening] ++ t ++ [closing]).getLast? ≠ some ' ' := by
        rw [List.getLast?_concat]
        exact fun e => hpair.2.2.1 (Option.some.inj e)
      rw [List.cons_append, scanFrom_headerChar hpair.1.1 hpair.1.2
        (fun _ => headerBlank_write hst hw), write_write, List.append_assoc,
        iht hin (allBlank_append hw _) (fun e => absurd e hopen), List.cons_append,
        scanFrom_headerChar hpair.2.1 hpair.2.2.1 (fun e => absurd e hpair.2.2.2), write_write,
        ih hm (allBlank_append (allBlank_append (allBlank_append hw _) _) _)
          (fun e => absurd e hclose)]
      simp

structure IsHeader (h : List Char) : Prop where
  phrase : Phrase [] headerMarks h
  starts : h.head?.any isIdentStart = true
  ends : Trimmed h

namespace IsHeader

variable {h : List Char}

theorem trimStart_append (hh : IsHeader h) (r : List Char) : trimStart (h ++ r) = h ++ r := by
  apply trimStart_of_stops
  cases h with
  | nil => exact absurd hh.starts (by decide)
  | cons c rest =>
      exact stops_cons (not_isBlank_of_isIdentChar (isIdentChar_of_isIdentStart hh.starts)) _

theorem trim_eq (hh : IsHeader h) : trim h = h := by
  have := hh.trimStart_append []
  rw [List.append_nil] at this
  rw [trim, this, trimEnd_of_trimmed hh.ends]

theorem trim_space (hh : IsHeader h) : trim (h ++ [' ']) = h := by
  rw [trim, hh.trimStart_append, trimEnd_space hh.ends]

theorem isEmpty_eq (hh : IsHeader h) : h.isEmpty = false := by
  cases h with
  | nil => exact absurd hh.starts (by decide)
  | cons c rest => rfl

theorem findAssignment_eq (hh : IsHeader h) : findAssignment h = none :=
  findAssignment_eq_none (hh.phrase.notMem rfl (by decide) (by decide))

theorem exists_word {banned : List (List Char)} {marks : List Char}
    (hstarts : h.head?.any isIdentStart = true) (hp : Phrase banned marks h) :
    ∃ w s, h = w ++ s ∧ IsWord w ∧ w ∉ banned ∧ Stops isIdentChar s ∧ Phrase banned marks s := by
  cases hp with
  | nil => exact absurd hstarts (by decide)
  | word hw hb hs hp => exact ⟨_, _, rfl, hw, hb, hs, hp⟩
  | mark _ hc _ => exact absurd hstarts (by simp [(of_mark (header_mark hc)).1])
  | space _ _ => exact absurd hstarts (by simp [isIdentStart])
  | brackets _ hb _ _ => exact absurd hstarts (by simp [(of_mark (bracket_marks hb).1).1])

theorem scanFrom_append (hh : IsHeader h) {st : State} (hst : st.statement.header = [])
    (r : List Char) : scanFrom st (h ++ r) = scanFrom (st.write h) r := by
  obtain ⟨w, s, rfl, hw, -, -, hs⟩ := exists_word hh.starts hh.phrase
  have hblank : allBlank w = false := by
    obtain ⟨c, rest, rfl, hc, -⟩ := hw.exists_cons
    rw [allBlank, List.all_cons, not_isBlank_of_isIdentChar (isIdentChar_of_isIdentStart hc),
      Bool.false_and]
  have hlast : w.getLast? ≠ some ' ' :=
    getLast?_of_endsIn (endsIn_of_forall hw.ne_nil hw.inside) rfl
  rw [List.append_assoc, scanFrom_run hw.inside hw.ne_nil,
    hs.scanFrom_append (List.Subset.refl _) hst hblank (fun e => absurd e hlast)]

theorem scanFrom_space (hh : IsHeader h) {st : State} (hst : st.statement.header = [])
    (r : List Char) : scanFrom st (h ++ ' ' :: r) = scanFrom (st.write (h ++ [' '])) r := by
  have hne : h ≠ [] := by
    rintro rfl
    exact absurd hh.starts (by decide)
  have hlast : h.getLast? ≠ some ' ' := getLast?_of_endsIn hh.ends rfl
  rw [hh.scanFrom_append hst, scanFrom_blank (c := ' ') (by decide), blank_write hst hne hlast]

end IsHeader

theorem first_notMem {banned : List (List Char)} {marks h : List Char}
    (hstarts : h.head?.any isIdentStart = true) (hp : Phrase banned marks h) :
    h.takeWhile isIdentChar ∉ banned := by
  obtain ⟨w, s, rfl, hw, hb, hs, -⟩ := IsHeader.exists_word hstarts hp
  rwa [hw.takeWhile_append hs]

theorem stripStart?_keyword {h : List Char} (word : List Char)
    (hword : ∀ c ∈ word, isIdentChar c = true) (hne : h.takeWhile isIdentChar ≠ word) :
    stripStart? (word ++ [' ']) h = none := by
  cases hs : stripStart? (word ++ [' ']) h with
  | none => rfl
  | some rest =>
      have := stripStart?_eq_some.1 hs
      rw [List.append_assoc, List.singleton_append] at this
      rw [this, takeWhile_append_stops hword (stops_cons rfl _)] at hne
      exact absurd rfl hne

theorem words_head {s : List Char} (h : s.head?.any (fun c => !isBlank c) = true) :
    (words s).head? = some (s.takeWhile fun c => !isBlank c) := by
  obtain ⟨rest, hsplit⟩ := splitAt_head isBlank s
  cases s with
  | nil => exact absurd h (by decide)
  | cons c s =>
      have hc : isBlank c = false := by simpa using h
      rw [words, hsplit, List.takeWhile_cons_of_pos (by simp [hc])]
      rfl

/-- A directive is told by its first word, for any characters of words that the keywords have and
blanks are not. -/
theorem not_directive_run {p : Char → Bool} (hblank : ∀ c, p c = true → isBlank c = false)
    (hkeys : ∀ word ∈ ["using", "global", "extern"], ∀ c ∈ word.toList, p c = true)
    {h : List Char} (hstarts : h.head?.any p = true)
    (hfirst : ∀ word ∈ ["using", "global", "extern"], h.takeWhile p ≠ word.toList) :
    ((words h).head?.any fun word =>
      ["using", "global", "extern"].contains (String.ofList word)) = false := by
  have hsolid : h.head?.any (fun c => !isBlank c) = true := by
    cases h with
    | nil => cases hstarts
    | cons c h =>
        have hc : isBlank c = false := hblank c hstarts
        rw [List.head?_cons, Option.any_some, hc, Bool.not_false]
  rw [words_head hsolid, Option.any_some, Bool.eq_false_iff]
  intro hc
  obtain ⟨word, hword, he⟩ : ∃ word ∈ ["using", "global", "extern"],
      h.takeWhile (fun c => !isBlank c) = word.toList :=
    ⟨_, List.contains_iff_mem.1 hc, String.toList_ofList.symm⟩
  have hstop : Stops p (h.dropWhile fun c => !isBlank c) := by
    refine (stops_dropWhile _ h).mono fun c hc => ?_
    rw [hblank c hc, Bool.not_false]
  have hcut := List.takeWhile_append_dropWhile (p := fun c => !isBlank c) (l := h)
  rw [he] at hcut
  have hrun := takeWhile_append_stops (hkeys word hword) hstop
  rw [hcut] at hrun
  exact hfirst word hword hrun

theorem not_directive {h : List Char} (hstarts : h.head?.any isIdentStart = true)
    (hfirst : h.takeWhile isIdentChar ∉ reserved) :
    ((words h).head?.any fun word =>
      ["using", "global", "extern"].contains (String.ofList word)) = false := by
  have hkeys : ∀ word ∈ ["using", "global", "extern"],
      word.toList.all isIdentChar = true ∧ word.toList ∈ reserved := by decide
  refine not_directive_run (fun _ => not_isBlank_of_isIdentChar)
    (fun word hword => List.all_eq_true.1 (hkeys word hword).1) ?_
    fun word hword he => hfirst (he ▸ (hkeys word hword).2)
  cases h with
  | nil => cases hstarts
  | cons c h => exact isIdentChar_of_isIdentStart hstarts

/-! ## The printed headers -/

theorem typeMarks_subset : typeMarks ⊆ headerMarks := fun _ hc =>
  List.mem_cons_of_mem _ (List.mem_cons_of_mem _ (List.mem_cons_of_mem _ hc))

theorem listMarks_subset : listMarks ⊆ headerMarks := fun _ hc =>
  List.mem_cons_of_mem _ (List.mem_cons_of_mem _ hc)

theorem Phrase.isHeader {banned : List (List Char)} {marks h : List Char}
    (hp : Phrase banned marks h) (hm : marks ⊆ headerMarks)
    (hstarts : h.head?.any isIdentStart = true) (hends : Trimmed h) : IsHeader h where
  phrase := (hp.mono hm).relax (List.nil_subset _)
  starts := hstarts
  ends := hends

theorem Part.isHeader {h : List Char} (hp : Part h) : IsHeader h :=
  hp.phrase.isHeader typeMarks_subset hp.starts hp.ends

theorem methodHeader_starts (type : TypeExpr) (name : Name)
    (parameters : List (TypeExpr × Name)) :
    (methodHeader type name parameters).head?.any isIdentStart = true := by
  obtain ⟨c, rest, he, hc⟩ := (propertyHeader_part type name).exists_cons
  rw [methodHeader_eq, he]
  exact hc

theorem methodHeader_isHeader (type : TypeExpr) (name : Name)
    (parameters : List (TypeExpr × Name)) : IsHeader (methodHeader type name parameters) := by
  have hends : Trimmed (methodHeader type name parameters) := by
    rw [methodHeader_eq]
    exact endsIn_append (endsIn_cons ⟨_, ')', rfl, by decide⟩ _) _
  refine (methodHeader_phrase type name parameters).isHeader ?_
    (methodHeader_starts type name parameters) hends
  intro c hc
  rcases List.mem_cons.1 hc with rfl | hc
  · decide
  · exact typeMarks_subset hc

theorem methodHeader_paren (type : TypeExpr) (name : Name)
    (parameters : List (TypeExpr × Name)) :
    (methodHeader type name parameters).contains '(' = true := by
  rw [methodHeader_eq, List.contains_iff_mem]
  simp

/-- A list of parts starts and ends as parts do. -/
theorem joined_ends {first : List Char} {rest : List (List Char)} (hfirst : Part first)
    (hrest : ∀ s ∈ rest, Part s) :
    (joined (first :: rest)).head?.any isIdentStart = true ∧ Trimmed (joined (first :: rest)) := by
  rw [joined_cons]
  constructor
  · obtain ⟨c, more, rfl, hc⟩ := hfirst.exists_cons
    exact hc
  · induction rest generalizing first with
    | nil => rw [List.flatMap_nil, List.append_nil]; exact hfirst.ends
    | cons s rest ih =>
        have := ih (hrest s List.mem_cons_self) fun t ht => hrest t (List.mem_cons_of_mem _ ht)
        rw [List.flatMap_cons, List.append_assoc]
        exact endsIn_append (endsIn_append this _) _

theorem fieldHeader_isHeader (type : TypeExpr) (first : Name) (more : List Name) :
    IsHeader (fieldHeader type (first :: more)) := by
  have hends := joined_ends (propertyHeader_part type first) (names_part more)
  rw [← fieldHeader_eq] at hends
  exact (fieldHeader_phrase type first more).isHeader listMarks_subset hends.1 hends.2

theorem basesText_phrase (bases : List TypeName) :
    Phrase reserved headerMarks (basesText bases) := by
  cases bases with
  | nil => exact .nil
  | cons first more =>
      have hparts := bases_part (first :: more)
      have hspace : Stops (· == ' ') (joined ((first :: more).map TypeName.text)) := by
        rw [List.map_cons, joined_cons]
        exact first.part.stops_space _
      exact .space (stops_cons rfl _) (.mark List.mem_cons_self (by decide)
        (.space hspace ((joined_phrase hparts).mono listMarks_subset)))

theorem basesText_trimmed (name : Name) (bases : List TypeName) :
    Trimmed (name.chars ++ basesText bases) := by
  cases bases with
  | nil =>
      rw [show basesText [] = [] from rfl, List.append_nil]
      exact (Part.of_name name).ends
  | cons first more =>
      have hmore := bases_part more
      exact endsIn_append (endsIn_append (joined_ends first.part hmore).2 " : ".toList) _

theorem typeHeader_isHeader (kind : DeclKind) (name : Name) (bases : List TypeName) :
    IsHeader (typeHeader kind name bases) := by
  have hword := word_isWord kind
  have hname : Phrase [] headerMarks (name.chars ++ basesText bases) :=
    ((Part.of_name name).leads typeMarks_subset (stops_basesText bases)
      (basesText_phrase bases)).relax (List.nil_subset _)
  refine ⟨.word hword List.not_mem_nil (stops_cons rfl _)
    (.space ((Part.of_name name).stops_space _) hname), ?_,
    endsIn_append (endsIn_cons (basesText_trimmed name bases) _) _⟩
  obtain ⟨c, rest, he, hc, -⟩ := hword.exists_cons
  rw [typeHeader, he]
  exact hc

theorem typeHeader_first (kind : DeclKind) (name : Name) (bases : List TypeName) :
    (typeHeader kind name bases).takeWhile isIdentChar = kind.word.toList :=
  (word_isWord kind).takeWhile_append (stops_cons rfl _)

theorem namespaceName_part (first : Name) (more : List Name) :
    Part (namespaceName (first :: more)) := by
  induction more generalizing first with
  | nil =>
      have : namespaceName [first] = first.chars := by simp [namespaceName, List.intercalate]
      rw [this]
      exact Part.of_name first
  | cons name more ih =>
      have : namespaceName (first :: name :: more) =
          first.chars ++ '.' :: namespaceName (name :: more) := by
        simp [namespaceName, List.intercalate]
      rw [this]
      exact (Part.of_name first).member (ih name)

theorem namespaceHeader_isHeader (first : Name) (more : List Name) :
    IsHeader (namespaceHeader (first :: more)) := by
  have hpart := namespaceName_part first more
  have hname : Phrase [] headerMarks (namespaceName (first :: more)) :=
    (hpart.phrase.mono typeMarks_subset).relax (List.nil_subset _)
  have hspace := hpart.stops_space []
  rw [List.append_nil] at hspace
  have hword : IsWord "namespace".toList := ⟨by decide, List.all_eq_true.1 (by decide)⟩
  have hphrase : Phrase [] headerMarks
      ("namespace".toList ++ ' ' :: namespaceName (first :: more)) :=
    .word hword List.not_mem_nil (stops_cons rfl _) (.space hspace hname)
  exact ⟨hphrase, rfl, endsIn_append hpart.ends _⟩

theorem typeHeader_notNamespace (kind : DeclKind) (name : Name) (bases : List TypeName) :
    stripStart? "namespace ".toList (typeHeader kind name bases) = none := by
  apply stripStart?_keyword "namespace".toList (List.all_eq_true.1 (by decide))
  rw [typeHeader_first]
  cases kind <;> decide

theorem member_notNamespace {marks h : List Char} (hstarts : h.head?.any isIdentStart = true)
    (hp : Phrase reserved marks h) : stripStart? "namespace ".toList h = none := by
  apply stripStart?_keyword "namespace".toList (List.all_eq_true.1 (by decide))
  intro e
  exact first_notMem hstarts hp (e ▸ by decide)

end Declaration
end DocPages
