/-
Reading follows the grammar.

Each reader gives a result if and only if the rules give it, from references up to the
inside of a tag.  `grow_of_reads` then takes the first piece off a comment, and
`grow_of_cut` all of them, so that what is built from a comment depends on nothing but
its pieces.
-/
import DocPages.Proofs.Markup.Grammar

namespace DocPages
namespace Markup

open Text

/-! ## References -/

theorem reference?_eq_some_iff {s rest : List Char} {c : Char} :
    reference? s = some (c, rest) ↔ Refers s c rest := by
  constructor
  · intro h
    have hstop := stops_dropWhile (fun d => decide (d ≠ ';')) s
    have hsplit := (List.takeWhile_append_dropWhile (p := fun d => decide (d ≠ ';')) (l := s)).symm
    rw [reference?] at h
    split at h
    · cases h
    · rename_i d rest' hdrop
      simp only at h
      split at h
      · rename_i hshort
        obtain ⟨c', hc, heq⟩ := Option.map_eq_some_iff.1 h
        cases heq
        rw [hdrop] at hstop hsplit
        obtain rfl : d = ';' := by simpa using hstop d rfl
        refine ⟨String.ofList (s.takeWhile fun d => decide (d ≠ ';')), ⟨?_, ?_, ?_⟩, ?_⟩
        · rw [String.toList_ofList]
          intro hmem
          simpa using List.all_eq_true.1 List.all_takeWhile _ hmem
        · rwa [String.toList_ofList]
        · rwa [String.toList_ofList]
        · rwa [String.toList_ofList]
      · cases h
  · rintro ⟨name, hname, rfl⟩
    exact reference?_of_names hname rest

theorem reference?_eq_none_iff {s : List Char} :
    reference? s = none ↔ ∀ c rest, ¬ Refers s c rest := by
  simp only [← reference?_eq_some_iff, Option.eq_none_iff_forall_ne_some, Prod.forall, ne_eq]

theorem decode_ampersand {s : List Char} (h : reference? s = none) :
    decode ('&' :: s) = '&' :: decode s := by
  rw [decode, if_pos rfl]
  split
  · rename_i h'
    rw [h] at h'
    cases h'
  · rfl

theorem decodes_decode (s : List Char) : Decodes s (decode s) := by
  fun_induction decode s with
  | case1 => exact .nil
  | case2 rest d after h _ ih => exact .reference (reference?_eq_some_iff.1 h) ih
  | case3 rest h ih => exact .ampersand (reference?_eq_none_iff.1 h) ih
  | case4 c rest hc ih => exact .plain hc ih

theorem decode_eq_iff {s t : List Char} : decode s = t ↔ Decodes s t := by
  constructor
  · rintro rfl
    exact decodes_decode s
  · intro h
    induction h with
    | nil => rw [decode]
    | reference href _ ih => rw [decode_reference (reference?_eq_some_iff.2 href), ih]
    | ampersand hnone _ ih => rw [decode_ampersand (reference?_eq_none_iff.2 hnone), ih]
    | plain hc _ ih => rw [decode_cons_of_ne hc, ih]

/-! ## Values -/

theorem readValue_quoted {q : Char} (hq : isQuote q = true) (s : List Char) :
    readValue (q :: s) =
      (breakOn [q] s).map fun cut => (String.ofList (decode cut.1), cut.2) := by
  rw [isQuote, Bool.or_eq_true, beq_iff_eq, beq_iff_eq] at hq
  rcases hq with rfl | rfl <;> rfl

theorem readValue_bare {s : List Char} (h : Stops isQuote s) :
    readValue s = some (String.ofList (decode (s.takeWhile isBare)), s.dropWhile isBare) := by
  unfold readValue
  split
  · exact absurd (h _ rfl) (by decide)
  · exact absurd (h _ rfl) (by decide)
  · rfl

theorem readValue_eq_some_iff {s rest : List Char} {value : String} :
    readValue s = some (value, rest) ↔ Valued s value rest := by
  constructor
  · intro h
    by_cases hstart : Stops isQuote s
    · rw [readValue_bare hstart] at h
      obtain ⟨raw, rest', rfl, hraw, hrest⟩ := exists_run isBare s
      rw [takeWhile_append_stops hraw hrest, dropWhile_append_stops hraw hrest] at h
      cases h
      exact .bare hstart hraw hrest (decodes_decode raw)
    · cases s with
      | nil => exact absurd (stops_nil isQuote) hstart
      | cons q body =>
          have hq : isQuote q = true := by
            by_contra hne
            exact hstart (stops_cons (Bool.eq_false_iff.2 hne) body)
          rw [readValue_quoted hq] at h
          obtain ⟨⟨raw, rest'⟩, hcut, heq⟩ := Option.map_eq_some_iff.1 h
          cases heq
          have hfirst := (breakOn_eq_some_iff (List.cons_ne_nil q [])).1 hcut
          exact .quoted hq hfirst (decodes_decode raw)
  · rintro (⟨hq, hcut, hvalue⟩ | ⟨hstart, hraw, hrest, hvalue⟩)
    · rw [readValue_quoted hq, (breakOn_eq_some_iff (List.cons_ne_nil _ [])).2 hcut,
        Option.map_some, decode_eq_iff.2 hvalue]
    · rw [readValue_bare hstart, takeWhile_append_stops hraw hrest,
        dropWhile_append_stops hraw hrest, decode_eq_iff.2 hvalue]

/-! ## Attributes -/

theorem trimStart_blanks {blanks : List Char} (hb : Blanks blanks) {s : List Char}
    (hs : Stops isBlank s) : trimStart (blanks ++ s) = s :=
  dropWhile_append_stops hb hs

theorem readAssigned_eq_some_iff {s rest : List Char} {value : String} :
    readAssigned s = some (value, rest) ↔ Assigned s value rest := by
  constructor
  · intro h
    obtain ⟨before, s', rfl, hbefore, hs'⟩ := exists_run isBlank s
    rw [readAssigned, trimStart_blanks hbefore hs'] at h
    split at h
    · rename_i body
      obtain ⟨after, body', rfl, hafter, hbody⟩ := exists_run isBlank body
      rw [trimStart_blanks hafter hbody] at h
      exact .value hbefore hafter hbody (readValue_eq_some_iff.1 h)
    · rename_i hnone
      cases h
      refine .missing hbefore hs' ?_
      intro c hc
      rw [beq_eq_false_iff_ne]
      rintro rfl
      obtain ⟨body, hbody⟩ := List.head?_eq_some_iff.1 hc
      exact hnone body hbody
  · rintro (⟨hbefore, hafter, hs, h⟩ | ⟨hbefore, hrest, hnone⟩)
    · rw [readAssigned, trimStart_blanks hbefore (stops_cons (by decide) _)]
      simp only
      rw [trimStart_blanks hafter hs, readValue_eq_some_iff.2 h]
    · rw [readAssigned, trimStart_blanks hbefore hrest]
      split
      · rename_i body
        exact absurd (hnone '=' rfl) (by decide)
      · rfl

/-- One turn of the reader: the blanks are passed over, and then a mark or an attribute is
read. -/
theorem readAttributes_eq (s : List Char) :
    readAttributes s =
      match trimStart s with
      | [] => none
      | '/' :: '>' :: rest => some ([], true, rest)
      | '>' :: rest => some ([], false, rest)
      | '<' :: _ => none
      | c :: rest =>
        if isKeyChar c then
          (readAssigned (rest.dropWhile isKeyChar)).bind fun assigned =>
            (readAttributes assigned.2).map fun tag =>
              ((String.ofList (c :: rest.takeWhile isKeyChar), assigned.1) :: tag.1, tag.2.1,
                tag.2.2)
        else readAttributes rest := by
  rw [readAttributes]
  split
  · rename_i h
    simp only [h]
  · rename_i h
    simp only [h]
  · rename_i h
    simp only [h]
  · rename_i h
    simp only [h]
  · rename_i c rest hself hclose hopen h
    simp only [h]
    split
    · cases readAssigned (rest.dropWhile isKeyChar) with
      | none => rfl
      | some assigned => rfl
    · rfl

theorem inside_blanks {blanks : List Char} (hb : Blanks blanks) {s rest : List Char}
    {attributes : Attributes} {alone : Bool} (h : Inside s attributes alone rest) :
    Inside (blanks ++ s) attributes alone rest := by
  induction blanks with
  | nil => exact h
  | cons c more ih =>
      exact .blank (hb c List.mem_cons_self) (ih fun d hd => hb d (List.mem_cons_of_mem _ hd))

theorem inside_of_trimStart {s rest : List Char} {attributes : Attributes} {alone : Bool}
    (h : Inside (trimStart s) attributes alone rest) : Inside s attributes alone rest := by
  obtain ⟨blanks, s', rfl, hb, hs'⟩ := exists_run isBlank s
  rw [trimStart_blanks hb hs'] at h
  exact inside_blanks hb h

theorem isKeyChar_eq_false {c : Char} (h : isKeyChar c = false) :
    isBlank c = true ∨ c = '=' ∨ c = '>' ∨ c = '/' := by
  rw [isKeyChar] at h
  by_contra hnone
  simp_all

theorem inside_of_readAttributes {s rest : List Char} {attributes : Attributes} {alone : Bool}
    (h : readAttributes s = some (attributes, alone, rest)) :
    Inside s attributes alone rest := by
  fun_induction readAttributes s generalizing attributes alone rest with
  | case1 => cases h
  | case2 s r hr =>
      cases h
      exact inside_of_trimStart (hr ▸ .closeItself)
  | case3 s r hr =>
      cases h
      exact inside_of_trimStart (hr ▸ .close)
  | case4 => cases h
  | case5 => cases h
  | case6 s c more _ _ hlt htrim _ hkey key value after ha _ =>
      rename_i ih
      obtain ⟨⟨others, alone', rest'⟩, hmore, heq⟩ := Option.map_eq_some_iff.1 h
      cases heq
      apply inside_of_trimStart
      obtain ⟨run, more', rfl, hrun, hstop⟩ := exists_run isKeyChar more
      rw [dropWhile_append_stops hrun hstop] at ha
      have htext : key = c :: run := congrArg (c :: ·) (takeWhile_append_stops hrun hstop)
      have hisKey : IsKey (String.ofList (c :: run)) :=
        ⟨c, run, String.toList_ofList, hlt, List.forall_mem_cons.2 ⟨hkey, hrun⟩⟩
      have hinside := Inside.keyed hisKey hstop (readAssigned_eq_some_iff.1 ha) (ih hmore)
      rw [String.toList_ofList] at hinside
      rw [htrim, htext]
      exact hinside
  | case7 s c more hself hgt _ htrim _ hkey ih =>
      apply inside_of_trimStart
      have hblank : isBlank c = false := by
        have hstop : Stops isBlank (trimStart s) := stops_dropWhile isBlank s
        rw [htrim] at hstop
        exact hstop c rfl
      rw [htrim]
      -- Neither a key nor a blank nor an end of the tag: a mark that is passed over.
      rcases isKeyChar_eq_false (Bool.eq_false_iff.2 hkey) with hc | rfl | rfl | rfl
      · rw [hblank] at hc
        cases hc
      · exact .equals (ih h)
      · exact absurd rfl hgt
      · refine .slash ?_ (ih h)
        intro d hd
        rw [beq_eq_false_iff_ne]
        rintro rfl
        obtain ⟨r, hr⟩ := List.head?_eq_some_iff.1 hd
        exact hself r rfl hr

/-- A character that ends no tag belongs to a key, or it is passed over. -/
theorem readAttributes_cons {c : Char} {s : List Char} (hblank : isBlank c = false)
    (hself : c = '/' → Stops (· == '>') s) (hgt : c ≠ '>') (hlt : c ≠ '<') :
    readAttributes (c :: s) =
      if isKeyChar c then
        (readAssigned (s.dropWhile isKeyChar)).bind fun assigned =>
          (readAttributes assigned.2).map fun tag =>
            ((String.ofList (c :: s.takeWhile isKeyChar), assigned.1) :: tag.1, tag.2.1, tag.2.2)
      else readAttributes s := by
  rw [readAttributes_eq, trimStart_of_stops (stops_cons hblank s)]
  split
  · rename_i h
    cases h
  · rename_i h
    obtain ⟨rfl, rfl⟩ := List.cons.inj h
    exact absurd (hself rfl '>' rfl) (by decide)
  · rename_i h
    exact absurd (List.cons.inj h).1 hgt
  · rename_i h
    exact absurd (List.cons.inj h).1 hlt
  · rename_i h
    obtain ⟨rfl, rfl⟩ := List.cons.inj h
    rfl

theorem ne_of_isKeyChar {c : Char} (h : isKeyChar c = true) :
    isBlank c = false ∧ c ≠ '>' ∧ c ≠ '/' := by
  rw [isKeyChar] at h
  simp only [Bool.and_eq_true, Bool.not_eq_true', bne_iff_ne] at h
  exact ⟨h.1.1.1, h.1.2, h.2⟩

theorem readAttributes_of_inside {s rest : List Char} {attributes : Attributes} {alone : Bool}
    (h : Inside s attributes alone rest) :
    readAttributes s = some (attributes, alone, rest) := by
  induction h with
  | close => exact readAttributes_close _
  | closeItself =>
      rw [readAttributes_eq, trimStart_of_stops (stops_cons (by decide) _)]
      rfl
  | blank hc _ ih => rw [readAttributes_eq, trimStart_blank hc, ← readAttributes_eq, ih]
  | slash hs _ ih =>
      rw [readAttributes_cons (by decide) (fun _ => hs) (by decide) (by decide),
        if_neg (by decide), ih]
  | equals _ ih =>
      have hslash : '=' ≠ '/' := by decide
      rw [readAttributes_cons (by decide) (fun e => absurd e hslash) (by decide) (by decide),
        if_neg (by decide), ih]
  | keyed hkey hs hvalue _ ih =>
      obtain ⟨c, run, hlist, hlt, hall⟩ := hkey
      obtain ⟨hc, hrun⟩ := List.forall_mem_cons.1 hall
      obtain ⟨hblank, hgt, hslash⟩ := ne_of_isKeyChar hc
      rw [hlist, List.cons_append,
        readAttributes_cons hblank (fun e => absurd e hslash) hgt hlt, if_pos hc,
        dropWhile_append_stops hrun hs, takeWhile_append_stops hrun hs,
        readAssigned_eq_some_iff.2 hvalue, ← hlist, String.ofList_toList, Option.bind_some, ih]
      rfl

/-! ## Tags -/

section Tags

variable (offset : Nat)

/-- What a tag comes to, if it does not end. -/
def orMalformed (tag : Option (Token × List Char)) : Token × List Char :=
  tag.getD (.malformed offset, [])

theorem readTag_comment (body : List Char) :
    readTag offset ("!--".toList ++ body) =
      orMalformed offset ((breakOn "-->".toList ("--".toList ++ body)).map fun cut =>
        (.text [], cut.2)) := rfl

theorem readTag_slash (body : List Char) :
    readTag offset ("/".toList ++ body) =
      orMalformed offset ((breakOn ">".toList body).map fun cut =>
        (.closing (String.ofList (trim cut.1)) offset, cut.2)) := rfl

theorem readTag_verbatim (body : List Char) :
    readTag offset ("![CDATA[".toList ++ body) =
      orMalformed offset ((breakOn "]]>".toList body).map fun cut => (.text cut.1, cut.2)) := rfl

theorem readTag_other {s : List Char} (hcomment : ∀ body, s ≠ "!--".toList ++ body)
    (hslash : ∀ body, s ≠ "/".toList ++ body) (hverbatim : ∀ body, s ≠ "![CDATA[".toList ++ body) :
    readTag offset s =
      if s.head?.any isNameStart then
        orMalformed offset ((readAttributes (s.dropWhile isNameChar)).map fun tag =>
          (if tag.2.1 then .selfClosing (String.ofList (s.takeWhile isNameChar)) tag.1
            else .opening (String.ofList (s.takeWhile isNameChar)) tag.1, tag.2.2))
      else (.text ['<'], s) := by
  have hnone : stripStart? "![CDATA[".toList s = none := by
    rw [Option.eq_none_iff_forall_ne_some]
    intro body h
    exact hverbatim body (stripStart?_eq_some.1 h)
  rw [readTag]
  · rw [hnone]
    rfl
  · exact hcomment
  · exact hslash

theorem readTag_name {name : String} (hname : IsName name) {s : List Char}
    (hs : Stops isNameChar s) :
    readTag offset (name.toList ++ s) =
      orMalformed offset ((readAttributes s).map fun tag =>
        (if tag.2.1 then .selfClosing name tag.1 else .opening name tag.1, tag.2.2)) := by
  have hchars := isName_chars hname
  obtain ⟨c, more, hlist, hc, _⟩ := hname
  have hne : ∀ d, isNameStart d = false → ∀ mark body, name.toList ++ s ≠ (d :: mark) ++ body := by
    intro d hd mark body h
    rw [hlist] at h
    rw [(List.cons.inj h).1, hd] at hc
    cases hc
  rw [readTag_other offset (hne '!' (by decide) _) (hne '/' (by decide) _)
      (hne '!' (by decide) _), takeWhile_append_stops hchars hs, dropWhile_append_stops hchars hs,
    String.ofList_toList, if_pos]
  rw [hlist]
  exact hc

theorem readTag_angle {s : List Char} (h : ¬ StartsTag s) :
    readTag offset s = (.text ['<'], s) := by
  simp only [StartsTag, not_or] at h
  obtain ⟨hcomment, hverbatim, hslash, hname⟩ := h
  rw [readTag_other offset (fun body e => hcomment ⟨body, e.symm⟩)
    (fun body e => hslash ⟨body, e.symm⟩) (fun body e => hverbatim ⟨body, e.symm⟩), if_neg]
  intro hany
  obtain ⟨c, hc, hstart⟩ := (Option.any_eq_true _ _).1 hany
  exact hname ⟨c, hc, hstart⟩

end Tags

/-- The token of a sign that starts at a byte. -/
def Sign.token (offset : Nat) : Sign → Token
  | .text content => .text content
  | .opening name attributes => .opening name attributes
  | .selfClosing name attributes => .selfClosing name attributes
  | .closing name => .closing name offset
  | .incomplete => .malformed offset

/-- The hyphens that start a comment hide no earlier end of it. -/
theorem firstAt_comment {body before rest : List Char} :
    FirstAt "-->".toList ('<' :: ("!--".toList ++ body)) before rest ↔
      ∃ b, before = '<' :: '!' :: b ∧ FirstAt "-->".toList ("--".toList ++ body) b rest := by
  have hangle : stripStart? "-->".toList ('<' :: '!' :: ("--".toList ++ body)) = none := rfl
  have hbang : stripStart? "-->".toList ('!' :: ("--".toList ++ body)) = none := rfl
  show FirstAt _ ('<' :: '!' :: ("--".toList ++ body)) _ _ ↔ _
  rw [firstAt_cons hangle]
  simp only [firstAt_cons hbang]
  constructor
  · rintro ⟨_, rfl, b, rfl, hb⟩
    exact ⟨b, rfl, hb⟩
  · rintro ⟨b, rfl, hb⟩
    exact ⟨_, rfl, b, rfl, hb⟩

theorem readTag_of_reads (offset : Nat) {s rest : List Char} {sign : Sign}
    (h : Reads ('<' :: s) sign rest) : readTag offset s = (sign.token offset, rest) := by
  generalize hs : '<' :: s = input at h
  cases h with
  | comment h =>
      obtain ⟨b, _, hb⟩ := firstAt_comment.1 h
      obtain rfl := (List.cons.inj hs).2
      rw [readTag_comment, (breakOn_eq_some_iff (by decide)).2 hb]
      rfl
  | verbatim h =>
      obtain rfl := (List.cons.inj hs).2
      rw [readTag_verbatim, (breakOn_eq_some_iff (by decide)).2 h]
      rfl
  | closing h =>
      obtain rfl := (List.cons.inj hs).2
      rw [readTag_slash, (breakOn_eq_some_iff (by decide)).2 h]
      rfl
  | opening hname hstop h =>
      obtain rfl := (List.cons.inj hs).2
      rw [readTag_name offset hname hstop, readAttributes_of_inside h]
      rfl
  | selfClosing hname hstop h =>
      obtain rfl := (List.cons.inj hs).2
      rw [readTag_name offset hname hstop, readAttributes_of_inside h]
      rfl
  | angle h =>
      obtain rfl := (List.cons.inj hs).2
      exact readTag_angle offset h
  | reference _ => exact absurd (List.cons.inj hs).1 (by decide)
  | ampersand _ => exact absurd (List.cons.inj hs).1 (by decide)
  | plain h =>
      rw [← (List.cons.inj hs).1] at h
      cases h

/-- A tag that no rule reads is malformed. -/
theorem readTag_of_incomplete (offset : Nat) {s : List Char} (h : Incomplete ('<' :: s)) :
    readTag offset s = (.malformed offset, []) := by
  obtain ⟨⟨body, hs, hstart⟩, hnone⟩ := h
  obtain rfl := (List.cons.inj hs).2
  rcases hstart with ⟨body, rfl⟩ | ⟨body, rfl⟩ | ⟨body, rfl⟩ | ⟨c, hc, hname⟩
  · rw [readTag_comment]
    cases hcut : breakOn "-->".toList ("--".toList ++ body) with
    | none => rfl
    | some cut =>
        have hfirst := (breakOn_eq_some_iff (by decide)).1 hcut
        exact absurd (Reads.comment (firstAt_comment.2 ⟨_, rfl, hfirst⟩)) (hnone _ _)
  · rw [readTag_verbatim]
    cases hcut : breakOn "]]>".toList body with
    | none => rfl
    | some cut =>
        exact absurd (Reads.verbatim ((breakOn_eq_some_iff (by decide)).1 hcut)) (hnone _ _)
  · rw [readTag_slash]
    cases hcut : breakOn ">".toList body with
    | none => rfl
    | some cut =>
        exact absurd (Reads.closing ((breakOn_eq_some_iff (by decide)).1 hcut)) (hnone _ _)
  · obtain ⟨run, s', rfl, hrun, hstop⟩ := exists_run isNameChar s
    have hisName : IsName (String.ofList run) := by
      rw [← takeWhile_append_stops hrun hstop]
      exact isName_takeWhile (by rwa [hc])
    rw [← String.toList_ofList (l := run)] at hnone ⊢
    rw [readTag_name offset hisName hstop]
    cases htag : readAttributes s' with
    | none => rfl
    | some tag =>
        obtain ⟨attributes, alone, rest⟩ := tag
        have hinside := inside_of_readAttributes htag
        cases alone with
        | true => exact absurd (Reads.selfClosing hisName hstop hinside) (hnone _ _)
        | false => exact absurd (Reads.opening hisName hstop hinside) (hnone _ _)

/-! ## Pieces -/

theorem suffix_of_firstAt {mark s before after : List Char} (h : FirstAt mark s before after) :
    after <:+ s :=
  ⟨before ++ mark, h.1.symm⟩

theorem suffix_of_valued {s rest : List Char} {value : String} (h : Valued s value rest) :
    rest <:+ s := by
  cases h with
  | quoted _ hcut _ => exact (suffix_of_firstAt hcut).trans (List.suffix_cons _ _)
  | bare _ _ _ _ => exact List.suffix_append _ _

theorem suffix_of_assigned {s rest : List Char} {value : String} (h : Assigned s value rest) :
    rest <:+ s := by
  cases h with
  | @value before after s _ _ _ _ _ h =>
      have hafter : rest <:+ after ++ s := (suffix_of_valued h).trans (List.suffix_append _ _)
      exact (hafter.trans (List.suffix_cons _ _)).trans (List.suffix_append _ _)
  | missing _ _ _ => exact List.suffix_append _ _

theorem suffix_of_inside {s rest : List Char} {attributes : Attributes} {alone : Bool}
    (h : Inside s attributes alone rest) : rest <:+ s := by
  induction h with
  | close => exact List.suffix_cons _ _
  | closeItself => exact (List.suffix_cons _ _).trans (List.suffix_cons _ _)
  | blank _ _ ih => exact ih.trans (List.suffix_cons _ _)
  | slash _ _ ih => exact ih.trans (List.suffix_cons _ _)
  | equals _ ih => exact ih.trans (List.suffix_cons _ _)
  | keyed _ _ hvalue _ ih =>
      exact (ih.trans (suffix_of_assigned hvalue)).trans (List.suffix_append _ _)

/-- A piece takes a character at least. -/
theorem Reads.suffix_tail {s rest : List Char} {sign : Sign} (h : Reads s sign rest) :
    ∃ c s', s = c :: s' ∧ rest <:+ s' := by
  cases h with
  | comment h =>
      obtain ⟨_, _, hb⟩ := firstAt_comment.1 h
      exact ⟨_, _, rfl, (suffix_of_firstAt hb).trans (List.suffix_cons _ _)⟩
  | verbatim h => exact ⟨_, _, rfl, (suffix_of_firstAt h).trans (List.suffix_append _ _)⟩
  | closing h => exact ⟨_, _, rfl, (suffix_of_firstAt h).trans (List.suffix_append _ _)⟩
  | opening _ _ h => exact ⟨_, _, rfl, (suffix_of_inside h).trans (List.suffix_append _ _)⟩
  | selfClosing _ _ h => exact ⟨_, _, rfl, (suffix_of_inside h).trans (List.suffix_append _ _)⟩
  | angle _ => exact ⟨_, _, rfl, List.suffix_refl _⟩
  | reference h =>
      obtain ⟨name, _, rfl⟩ := h
      exact ⟨_, _, rfl, (List.suffix_cons _ _).trans (List.suffix_append _ _)⟩
  | ampersand _ => exact ⟨_, _, rfl, List.suffix_refl _⟩
  | plain _ => exact ⟨_, _, rfl, List.suffix_refl _⟩

theorem Reads.exists_written {s rest : List Char} {sign : Sign} (h : Reads s sign rest) :
    ∃ c written, s = c :: written ++ rest := by
  obtain ⟨c, s', rfl, written, rfl⟩ := h.suffix_tail
  exact ⟨c, written, rfl⟩

/-- A comment starts with a piece or with a tag that does not end. -/
theorem reads_or_incomplete (c : Char) (s : List Char) :
    (∃ sign rest, Reads (c :: s) sign rest) ∨ Incomplete (c :: s) := by
  by_cases hlt : c = '<'
  · subst hlt
    by_cases hstart : StartsTag s
    · by_cases hreads : ∃ sign rest, Reads ('<' :: s) sign rest
      · exact .inl hreads
      · refine .inr ⟨⟨s, rfl, hstart⟩, fun sign rest h => hreads ⟨sign, rest, h⟩⟩
    · exact .inl ⟨_, _, .angle hstart⟩
  · left
    by_cases hamp : c = '&'
    · subst hamp
      by_cases href : ∃ d rest, Refers s d rest
      · obtain ⟨d, rest, h⟩ := href
        exact ⟨_, _, .reference h⟩
      · exact ⟨_, _, .ampersand fun d rest h => href ⟨d, rest, h⟩⟩
    · have hplain : isPlain c = true := by
        rw [isPlain, Bool.and_eq_true, bne_iff_ne, bne_iff_ne]
        exact ⟨hlt, hamp⟩
      exact ⟨_, _, .plain hplain⟩

/-- Every comment can be cut. -/
theorem exists_cut (s : List Char) : ∃ pieces, Cut s pieces := by
  induction hn : s.length using Nat.strong_induction_on generalizing s with
  | _ n ih =>
      cases s with
      | nil => exact ⟨[], .nil⟩
      | cons c s =>
          rcases reads_or_incomplete c s with ⟨sign, rest, h⟩ | h
          · obtain ⟨d, written, hs⟩ := h.exists_written
            have hlt : rest.length < n := by
              rw [← hn, hs, List.cons_append, List.length_cons, List.length_append]
              omega
            obtain ⟨pieces, hpieces⟩ := ih rest.length hlt rest rfl
            rw [hs] at h ⊢
            exact ⟨_, .piece h hpieces⟩
          · exact ⟨_, .incomplete h⟩

/-! ## What is built from pieces -/

theorem Reads.complete {s rest : List Char} {sign : Sign} (h : Reads s sign rest) :
    sign ≠ .incomplete := by
  rintro rfl
  cases h

theorem tokensFrom_ampersand {s : List Char} (h : reference? s = none) (offset : Nat) :
    tokensFrom offset ('&' :: s) = .text ['&'] :: tokensFrom (offset + 1) s := by
  rw [tokensFrom, if_neg (by decide), if_pos rfl]
  split
  · rename_i h'
    rw [h] at h'
    cases h'
  · rfl

theorem grow_of_reads (nodes : List Node) (stack : List Frame) (offset : Nat)
    {written rest : List Char} {sign : Sign} (h : Reads (written ++ rest) sign rest) :
    grow nodes stack (tokensFrom offset (written ++ rest)) =
      grow nodes stack (sign.token offset :: tokensFrom (offset + byteLength written) rest) := by
  obtain ⟨c, tail, hs⟩ := h.exists_written
  obtain rfl := List.append_cancel_right hs
  by_cases hc : c = '<'
  · subst hc
    have htoken : ∀ n, sign.token offset ≠ .malformed n := by
      have hcomplete := h.complete
      intro n hn
      cases sign <;> simp [Sign.token] at hn hcomplete
    rw [List.cons_append, tokensFrom_tag (readTag_of_reads offset h) htoken]
  · generalize hinput : c :: tail ++ rest = input at h
    cases h with
    | reference href =>
        obtain ⟨name, hname, hrest⟩ := href
        obtain ⟨rfl, htail⟩ := List.cons.inj hinput
        rw [hrest, List.append_cons] at htail
        obtain rfl := List.append_cancel_right htail
        rw [hrest, ← List.cons_append, grow_reference hname]
        rfl
    | ampersand hnone =>
        obtain ⟨rfl, htail⟩ := List.cons.inj hinput
        obtain rfl := List.append_left_eq_self.1 htail
        rw [tokensFrom_ampersand (reference?_eq_none_iff.2 hnone)]
        rfl
    | plain hplain =>
        obtain ⟨rfl, htail⟩ := List.cons.inj hinput
        obtain rfl := List.append_left_eq_self.1 htail
        rw [grow_plain hplain, byteLength_cons]
        rfl
    | _ => exact absurd (List.cons.inj hinput).1 hc

/-- The tokens of pieces of which the first starts at a byte. -/
def tokensOf : Nat → List Piece → List Token
  | _, [] => []
  | offset, piece :: rest =>
    piece.sign.token offset :: tokensOf (offset + byteLength piece.written) rest

theorem grow_cons_congr {a b : List Token}
    (h : ∀ nodes stack, grow nodes stack a = grow nodes stack b) (token : Token)
    (nodes : List Node) (stack : List Frame) :
    grow nodes stack (token :: a) = grow nodes stack (token :: b) := by
  cases token with
  | text content => exact h _ _
  | opening name attributes => exact h _ _
  | selfClosing name attributes => exact h _ _
  | closing name offset =>
      cases stack with
      | nil => rfl
      | cons frame outer => simp only [grow, h]
  | malformed offset => rfl

/-- What is built from a comment is built from its pieces. -/
theorem grow_of_cut {s : List Char} {pieces : List Piece} (h : Cut s pieces) (nodes : List Node)
    (stack : List Frame) (offset : Nat) :
    grow nodes stack (tokensFrom offset s) = grow nodes stack (tokensOf offset pieces) := by
  induction h generalizing nodes stack offset with
  | nil => rw [tokensFrom, tokensOf]
  | piece h _ ih =>
      rw [grow_of_reads nodes stack offset h]
      exact grow_cons_congr (fun nodes stack => ih nodes stack _) _ nodes stack
  | incomplete h =>
      obtain ⟨⟨body, rfl, _⟩, _⟩ := id h
      rw [tokensFrom, if_pos rfl]
      split
      · rename_i at_ after hread
        rw [readTag_of_incomplete offset h] at hread
        cases hread
        rfl
      · rename_i token after hne hread
        rw [readTag_of_incomplete offset h] at hread
        cases hread
        exact absurd rfl (hne offset)

end Markup
end DocPages
