/-
Reading markup and writing it are inverse.

What is read is a well-formed forest: `Token.Ok` holds of every token, and `grow` keeps
the nodes it has and the frames on its stack well formed.  What is written is read back:
text goes one character at a time, since it does not matter in which pieces text comes
(`addText_addText`), and an element is read by its opening tag, its children and its
closing tag.
-/
import DocPages.Proofs.Markup.Printed

namespace DocPages
namespace Markup

open Text

/-! ## Text joins text -/

theorem addText_nil (nodes : List Node) : addText nodes [] = nodes := rfl

theorem addText_cons_of_text {nodes : List Node} {before : String} {content : List Char}
    (hc : content ≠ []) :
    addText (nodes ++ [.text before]) content =
      nodes ++ [.text (before ++ String.ofList content)] := by
  simp [addText, hc]

theorem addText_of_apart {nodes : List Node} {content : List Char} (hc : content ≠ [])
    (h : ∀ last, nodes.getLast? = some last → last.isText = false) :
    addText nodes content = nodes ++ [.text (String.ofList content)] := by
  rw [addText, if_neg (by simpa using hc)]
  split
  · rename_i before hlast
    have := h _ hlast
    cases this
  · rfl

/-- A list of nodes ends in text, or text is a new node there. -/
theorem text_last_or (nodes : List Node) :
    (∃ more before, nodes = more ++ [.text before]) ∨
      ∀ last, nodes.getLast? = some last → last.isText = false := by
  rcases List.eq_nil_or_concat nodes with rfl | ⟨more, last, rfl⟩
  · exact .inr nofun
  · cases last with
    | text before => exact .inl ⟨more, before, by simp⟩
    | element name attributes children =>
        refine .inr ?_
        intro last hlast
        simp only [List.concat_eq_append, List.getLast?_concat, Option.some.injEq] at hlast
        rw [← hlast]
        rfl

theorem addText_addText (nodes : List Node) (a b : List Char) :
    addText (addText nodes a) b = addText nodes (a ++ b) := by
  by_cases ha : a = []
  · subst ha
    rfl
  by_cases hb : b = []
  · subst hb
    rw [List.append_nil, addText_nil]
  have hab : a ++ b ≠ [] := by simp [ha]
  rcases text_last_or nodes with ⟨more, before, rfl⟩ | h
  · rw [addText_cons_of_text ha, addText_cons_of_text hb, addText_cons_of_text hab,
      String.ofList_append, String.append_assoc]
  · rw [addText_of_apart ha h, addText_cons_of_text hb, addText_of_apart hab h,
      String.ofList_append]

/-! ## What is read is well formed -/

theorem wellFormed_nil : WellFormed [] := ⟨List.isChain_nil, trivial⟩

theorem WellFormed.concat_element {nodes : List Node} (h : WellFormed nodes) {name : String}
    {attributes : Attributes} {children : List Node} (hname : IsName name)
    (hkeys : ∀ a ∈ attributes, IsKey a.1) (hchildren : WellFormed children) :
    WellFormed (nodes ++ [.element name attributes children]) := by
  refine ⟨?_, ?_⟩
  · rw [apart_append_singleton]
    exact ⟨h.1, fun _ _ hboth => absurd hboth.2 nofun⟩
  · rw [nodesOk_append]
    exact ⟨h.2, ⟨hname, hkeys, hchildren.1, hchildren.2⟩, trivial⟩

theorem WellFormed.addText {nodes : List Node} (h : WellFormed nodes) (content : List Char) :
    WellFormed (addText nodes content) := by
  by_cases hc : content = []
  · subst hc
    exact h
  rcases text_last_or nodes with ⟨more, before, rfl⟩ | hlast
  · rw [addText_cons_of_text hc]
    obtain ⟨hapart, hok⟩ := h
    rw [apart_append_singleton] at hapart
    rw [nodesOk_append] at hok
    refine ⟨apart_append_singleton.2 ⟨hapart.1, hapart.2⟩, nodesOk_append.2 ⟨hok.1, ?_, trivial⟩⟩
    intro he
    have := congrArg String.toList he
    simp [hc] at this
  · rw [addText_of_apart hc hlast]
    have hfilled : String.ofList content ≠ "" := mt String.ofList_eq_empty_iff.1 hc
    refine ⟨apart_append_singleton.2 ⟨h.1, ?_⟩, nodesOk_append.2 ⟨h.2, hfilled, trivial⟩⟩
    intro last hl hboth
    rw [hlast last hl] at hboth
    exact absurd hboth.1 nofun

/-- Tags have names and keys of the right characters. -/
def Token.Ok : Token → Prop
  | .opening name attributes | .selfClosing name attributes =>
    IsName name ∧ ∀ a ∈ attributes, IsKey a.1
  | _ => True

theorem readAttributes_keys {s rest : List Char} {attributes : Attributes} {alone : Bool}
    (h : readAttributes s = some (attributes, alone, rest)) : ∀ a ∈ attributes, IsKey a.1 := by
  fun_induction readAttributes s generalizing attributes alone rest with
  | case1 => cases h
  | case2 =>
      cases h
      exact List.forall_mem_nil _
  | case3 =>
      cases h
      exact List.forall_mem_nil _
  | case4 => cases h
  | case5 => cases h
  | case6 s c more _ _ hlt _ _ hkey key value after _ _ =>
      rename_i ih
      simp only [Option.map_eq_some_iff, Prod.mk.injEq, Prod.exists] at h
      obtain ⟨others, _, _, hmore, rfl, _, _⟩ := h
      intro a hmem
      rcases List.mem_cons.1 hmem with rfl | hold
      · refine ⟨c, more.takeWhile isKeyChar, String.toList_ofList, hlt, ?_⟩
        intro d hd
        rcases List.mem_cons.1 hd with rfl | hd
        · exact hkey
        · exact List.all_eq_true.1 List.all_takeWhile d hd
      · exact ih hmore a hold
  | case7 s c more _ _ _ _ _ _ ih => exact ih h

theorem isNameChar_of_isNameStart {c : Char} (h : isNameStart c = true) : isNameChar c = true := by
  rw [isNameStart, Bool.or_eq_true] at h
  rw [isNameChar, isAlphanumeric, Bool.or_eq_true]
  rcases h with h | h
  · exact .inl (by simp [h])
  · rw [beq_iff_eq] at h
    subst h
    exact .inr (by decide)

theorem isName_takeWhile {s : List Char} (h : s.head?.any isNameStart = true) :
    IsName (String.ofList (s.takeWhile isNameChar)) := by
  cases s with
  | nil => cases h
  | cons c rest =>
      have hc : isNameStart c = true := h
      refine ⟨c, rest.takeWhile isNameChar, ?_, hc, ?_⟩
      · rw [String.toList_ofList, List.takeWhile_cons_of_pos (isNameChar_of_isNameStart hc)]
      · intro d hd
        exact List.all_eq_true.1 List.all_takeWhile d hd

theorem readTag_ok (offset : Nat) (s : List Char) : (readTag offset s).1.Ok := by
  have key : ∀ {α : Type} (r : Option α) (f : α → Token × List Char),
      (∀ a, r = some a → (f a).1.Ok) → ((r.map f).getD (.malformed offset, [])).1.Ok := by
    intro α r f hr
    cases r with
    | none => trivial
    | some a => exact hr a rfl
  unfold readTag
  simp only
  split
  · exact key _ _ fun cut _ => trivial
  · exact key _ _ fun cut _ => trivial
  · split
    · exact key _ _ fun cut _ => trivial
    · split
      · rename_i hstart
        refine key _ _ fun ⟨attributes, alone, rest⟩ htag => ?_
        have hname := isName_takeWhile hstart
        have hkeys := readAttributes_keys htag
        cases alone
        · exact ⟨hname, hkeys⟩
        · exact ⟨hname, hkeys⟩
      · trivial

theorem tokensFrom_ok (offset : Nat) (s : List Char) : ∀ t ∈ tokensFrom offset s, t.Ok := by
  fun_induction tokensFrom offset s with
  | case1 => exact nofun
  | case2 offset rest at_ after h =>
      intro t ht
      rw [List.mem_singleton.1 ht]
      trivial
  | case3 offset rest token after _ h _ ih =>
      have hok := readTag_ok offset rest
      rw [h] at hok
      intro t ht
      rcases List.mem_cons.1 ht with rfl | ht
      · exact hok
      · exact ih t ht
  | case4 offset rest d after h hlt _ ih =>
      intro t ht
      rcases List.mem_cons.1 ht with rfl | ht
      · trivial
      · exact ih t ht
  | case5 offset rest _ _ ih =>
      intro t ht
      rcases List.mem_cons.1 ht with rfl | ht
      · trivial
      · exact ih t ht
  | case6 offset c rest _ _ _ run ih =>
      intro t ht
      rcases List.mem_cons.1 ht with rfl | ht
      · trivial
      · exact ih t ht

/-- An open element that can become a node. -/
def Frame.Ok (frame : Frame) : Prop :=
  IsName frame.name ∧ (∀ a ∈ frame.attributes, IsKey a.1) ∧ WellFormed frame.before

theorem grow_wellFormed {tokens : List Token} {nodes : List Node} {stack : List Frame}
    {forest : List Node} (ht : ∀ t ∈ tokens, t.Ok) (hn : WellFormed nodes)
    (hs : ∀ frame ∈ stack, frame.Ok) (h : grow nodes stack tokens = .ok forest) :
    WellFormed forest := by
  induction tokens generalizing nodes stack with
  | nil =>
      cases stack with
      | nil =>
          cases h
          exact hn
      | cons frame outer => cases h
  | cons t rest ih =>
      have hrest : ∀ t ∈ rest, t.Ok := fun t ht' => ht t (List.mem_cons_of_mem _ ht')
      have hok : t.Ok := ht t List.mem_cons_self
      cases t with
      | text content => exact ih hrest (hn.addText content) hs h
      | selfClosing name attributes =>
          exact ih hrest (hn.concat_element hok.1 hok.2 wellFormed_nil) hs h
      | opening name attributes =>
          refine ih hrest wellFormed_nil ?_ h
          intro frame hframe
          rcases List.mem_cons.1 hframe with rfl | hframe
          · exact ⟨hok.1, hok.2, hn⟩
          · exact hs frame hframe
      | closing name offset =>
          cases stack with
          | nil => cases h
          | cons frame outer =>
              obtain ⟨hname, hkeys, hbefore⟩ := hs frame List.mem_cons_self
              rw [grow] at h
              split at h
              · exact ih hrest (hbefore.concat_element hname hkeys hn)
                  (fun f hf => hs f (List.mem_cons_of_mem _ hf)) h
              · cases h
      | malformed offset => cases h

theorem wellFormed_of_parse {s : String} {forest : List Node} (h : parse s = .ok forest) :
    WellFormed forest :=
  grow_wellFormed (tokensFrom_ok 0 s.toList) wellFormed_nil (List.forall_mem_nil _) h

/-! ## References -/

/-- The name of a reference to a character. -/
structure Names (name : String) (c : Char) : Prop where
  no_semicolon : ';' ∉ name.toList
  short : byteLength name.toList ≤ 8
  char : entityChar? name.toList = some c

theorem names_amp : Names "amp" '&' := ⟨by decide, by decide, by decide⟩

theorem names_lt : Names "lt" '<' := ⟨by decide, by decide, by decide⟩

theorem names_quot : Names "quot" '"' := ⟨by decide, by decide, by decide⟩

theorem reference?_of_names {name : String} {c : Char} (h : Names name c) (rest : List Char) :
    reference? (name.toList ++ ';' :: rest) = some (c, rest) := by
  have hrun : ∀ d ∈ name.toList, decide (d ≠ ';') = true := by
    intro d hd
    exact decide_eq_true (fun e => h.no_semicolon (e ▸ hd))
  have hstop : Stops (fun d => decide (d ≠ ';')) (';' :: rest) := stops_cons (by decide) rest
  unfold reference?
  rw [dropWhile_append_stops hrun hstop, takeWhile_append_stops hrun hstop]
  simp only [h.short, if_true, h.char, Option.map_some]

theorem decode_reference {s rest : List Char} {d : Char} (h : reference? s = some (d, rest)) :
    decode ('&' :: s) = d :: decode rest := by
  rw [decode, if_pos rfl]
  split
  · rename_i d' after h'
    rw [h] at h'
    cases h'
    rfl
  · rename_i h'
    rw [h] at h'
    cases h'

theorem decode_cons_of_ne {c : Char} (h : c ≠ '&') (s : List Char) :
    decode (c :: s) = c :: decode s := by
  rw [decode, if_neg h]

theorem decode_escape {special : Char} {reference : String} (h : Names reference special)
    (s : List Char) : decode (s.flatMap (escapeChar special reference)) = s := by
  induction s with
  | nil => rw [List.flatMap_nil, decode]
  | cons c rest ih =>
      rw [List.flatMap_cons, escapeChar]
      by_cases hamp : c = '&'
      · rw [if_pos hamp, hamp]
        show decode
          ('&' :: ("amp".toList ++ ';' :: rest.flatMap (escapeChar special reference))) = _
        rw [decode_reference (reference?_of_names names_amp _), ih]
      · rw [if_neg hamp]
        by_cases hc : c = special
        · rw [if_pos hc, hc, List.cons_append, List.cons_append, List.append_assoc,
            List.singleton_append, decode_reference (reference?_of_names h _), ih]
        · rw [if_neg hc, List.singleton_append, decode_cons_of_ne hamp, ih]

/-! ## Text is read one character at a time -/

theorem tokensFrom_plain {c : Char} (hc : isPlain c = true) (offset : Nat) (s : List Char) :
    tokensFrom offset (c :: s) =
      .text (c :: s.takeWhile isPlain) ::
        tokensFrom (offset + byteLength (c :: s.takeWhile isPlain)) (s.dropWhile isPlain) := by
  rw [isPlain, Bool.and_eq_true, bne_iff_ne, bne_iff_ne] at hc
  rw [tokensFrom, if_neg hc.1, if_neg hc.2]

theorem grow_plain {c : Char} (hc : isPlain c = true) (nodes : List Node) (stack : List Frame)
    (offset : Nat) (s : List Char) :
    grow nodes stack (tokensFrom offset (c :: s)) =
      grow (addText nodes [c]) stack (tokensFrom (offset + c.utf8Size) s) := by
  rw [tokensFrom_plain hc, grow]
  cases s with
  | nil => simp [byteLength]
  | cons d rest =>
      by_cases hd : isPlain d = true
      · rw [tokensFrom_plain hd, grow, addText_addText, List.takeWhile_cons_of_pos hd,
          List.dropWhile_cons_of_pos hd, byteLength_cons c, Nat.add_assoc]
        rfl
      · rw [List.takeWhile_cons_of_neg hd, List.dropWhile_cons_of_neg hd, byteLength_cons,
          byteLength, List.foldr_nil, Nat.add_zero]

theorem grow_reference {name : String} {c : Char} (h : Names name c) (nodes : List Node)
    (stack : List Frame) (offset : Nat) (s : List Char) :
    grow nodes stack (tokensFrom offset ('&' :: name.toList ++ ';' :: s)) =
      grow (addText nodes [c]) stack
        (tokensFrom (offset + byteLength ('&' :: name.toList ++ [';'])) s) := by
  have hread := reference?_of_names h s
  rw [List.cons_append, tokensFrom, if_neg (by decide), if_pos rfl]
  split
  · rename_i d after hd
    rw [hread] at hd
    cases hd
    rw [grow]
    congr 2
    simp only [byteLength_append, byteLength_cons, List.cons_append]
    have : byteLength [] = 0 := rfl
    have : '&'.utf8Size = 1 := by decide
    omega
  · rename_i hd
    rw [hread] at hd
    cases hd

theorem grow_escapeChar (c : Char) (nodes : List Node) (stack : List Frame) (offset : Nat)
    (s : List Char) :
    grow nodes stack (tokensFrom offset (escapeChar '<' "lt" c ++ s)) =
      grow (addText nodes [c]) stack
        (tokensFrom (offset + byteLength (escapeChar '<' "lt" c)) s) := by
  by_cases hamp : c = '&'
  · subst hamp
    exact grow_reference names_amp nodes stack offset s
  · by_cases hlt : c = '<'
    · subst hlt
      exact grow_reference names_lt nodes stack offset s
    · have hplain : isPlain c = true := by
        rw [isPlain, Bool.and_eq_true, bne_iff_ne, bne_iff_ne]
        exact ⟨hlt, hamp⟩
      have hesc : escapeChar '<' "lt" c = [c] := by
        rw [escapeChar, if_neg hamp, if_neg hlt]
      rw [hesc, List.singleton_append, grow_plain hplain, byteLength_cons]
      rfl

theorem grow_escapeText (content : List Char) (nodes : List Node) (stack : List Frame)
    (offset : Nat) (s : List Char) :
    grow nodes stack (tokensFrom offset (escapeText content ++ s)) =
      grow (addText nodes content) stack
        (tokensFrom (offset + byteLength (escapeText content)) s) := by
  induction content generalizing nodes offset with
  | nil => rfl
  | cons c rest ih =>
      have hcons : escapeText (c :: rest) = escapeChar '<' "lt" c ++ escapeText rest :=
        List.flatMap_cons
      rw [hcons, List.append_assoc, grow_escapeChar, ih, addText_addText, byteLength_append,
        Nat.add_assoc]
      rfl

/-! ## Tags -/

theorem not_blank_of_isNameChar {c : Char} (h : isNameChar c = true) : isBlank c = false :=
  not_blank_of_codes (by decide +kernel) h

theorem isName_chars {name : String} (h : IsName name) :
    ∀ c ∈ name.toList, isNameChar c = true := by
  obtain ⟨c, rest, hname, hc, hrest⟩ := h
  rw [hname]
  intro d hd
  rcases List.mem_cons.1 hd with rfl | hd
  · exact isNameChar_of_isNameStart hc
  · exact hrest d hd

theorem quote_notMem_escapeValue (s : List Char) : '"' ∉ escapeValue s := by
  rw [escapeValue, List.mem_flatMap]
  rintro ⟨c, _, hc⟩
  rw [escapeChar] at hc
  split at hc
  · exact absurd hc (by decide)
  · split at hc
    · exact absurd hc (by decide)
    · rename_i hne
      exact hne (List.mem_singleton.1 hc).symm

theorem readAssigned_quoted (value : String) (rest : List Char) :
    readAssigned ('=' :: '"' :: (escapeValue value.toList ++ '"' :: rest)) =
      some (value, rest) := by
  have heq : Stops isBlank ('=' :: '"' :: (escapeValue value.toList ++ '"' :: rest)) :=
    stops_cons (by decide) _
  have hquote : Stops isBlank ('"' :: (escapeValue value.toList ++ '"' :: rest)) :=
    stops_cons (by decide) _
  rw [readAssigned, trimStart_of_stops heq]
  simp only
  rw [trimStart_of_stops hquote, readValue]
  simp only [breakOn_char (quote_notMem_escapeValue _), Option.map_some]
  rw [escapeValue, decode_escape names_quot, String.ofList_toList]

theorem readAttributes_close (rest : List Char) :
    readAttributes ('>' :: rest) = some ([], false, rest) := by
  have htrim : trimStart ('>' :: rest) = '>' :: rest :=
    trimStart_of_stops (stops_cons (by decide) rest)
  rw [readAttributes]
  split
  · simp_all
  · simp_all
  · simp_all
  · simp_all
  · simp_all

theorem readAttributes_key {key : String} (hkey : IsKey key) (value : String)
    (s : List Char) :
    readAttributes (printAttribute (key, value) ++ s) =
      (readAttributes s).map fun tag => ((key, value) :: tag.1, tag.2.1, tag.2.2) := by
  obtain ⟨c, rest, hlist, hlt, hall⟩ := hkey
  have hc : isKeyChar c = true := hall c List.mem_cons_self
  have hchars := hc
  rw [isKeyChar] at hchars
  simp only [Bool.and_eq_true, bne_iff_ne, Bool.not_eq_true', ne_eq] at hchars
  obtain ⟨⟨⟨hblank, _⟩, hgt⟩, hslash⟩ := hchars
  let tail := '=' :: '"' :: (escapeValue value.toList ++ '"' :: s)
  have hrest : ∀ d ∈ rest, isKeyChar d = true := fun d hd => hall d (List.mem_cons_of_mem _ hd)
  have htail : Stops isKeyChar tail := stops_cons (by decide) _
  have hprint : printAttribute (key, value) ++ s = ' ' :: c :: (rest ++ tail) := by
    simp [printAttribute, hlist, tail]
  have htrim : trimStart (' ' :: c :: (rest ++ tail)) = c :: (rest ++ tail) := by
    rw [trimStart_blank (by decide), trimStart_of_stops (stops_cons hblank _)]
  have hassigned : readAssigned ((rest ++ tail).dropWhile isKeyChar) = some (value, s) := by
    rw [dropWhile_append_stops hrest htail, readAssigned_quoted]
  have hkeyText : String.ofList (c :: (rest ++ tail).takeWhile isKeyChar) = key := by
    rw [takeWhile_append_stops hrest htail, ← hlist, String.ofList_toList]
  rw [hprint, readAttributes]
  -- The key starts with none of the characters that end a tag, so one case is left.
  split <;> rename_i h <;> rw [htrim] at h
  · cases h
  · exact absurd (List.cons.inj h).1 hslash
  · exact absurd (List.cons.inj h).1 hgt
  · exact absurd (List.cons.inj h).1 hlt
  · obtain ⟨rfl, rfl⟩ := List.cons.inj h
    simp only [hc, if_true]
    split
    · rename_i hnone
      rw [hassigned] at hnone
      cases hnone
    · rename_i value' after hsome
      rw [hassigned] at hsome
      cases hsome
      rw [hkeyText]

theorem readAttributes_print {attributes : Attributes} (h : ∀ a ∈ attributes, IsKey a.1)
    (rest : List Char) :
    readAttributes (attributes.flatMap printAttribute ++ '>' :: rest) =
      some (attributes, false, rest) := by
  induction attributes with
  | nil => exact readAttributes_close rest
  | cons a more ih =>
      rw [List.flatMap_cons, List.append_assoc, readAttributes_key (h a List.mem_cons_self) a.2,
        ih (fun b hb => h b (List.mem_cons_of_mem _ hb))]
      rfl

/-- What stands after the name in an opening tag is not part of the name. -/
theorem stops_isNameChar (attributes : Attributes) (rest : List Char) :
    Stops isNameChar (attributes.flatMap printAttribute ++ '>' :: rest) := by
  cases attributes with
  | nil => exact stops_cons (by decide) rest
  | cons a more => exact stops_cons (by decide) _

theorem readTag_opening {name : String} (hname : IsName name) {attributes : Attributes}
    (hkeys : ∀ a ∈ attributes, IsKey a.1) (offset : Nat) (rest : List Char) :
    readTag offset (name.toList ++ (attributes.flatMap printAttribute ++ '>' :: rest)) =
      (.opening name attributes, rest) := by
  have hchars := isName_chars hname
  have hstops := stops_isNameChar attributes rest
  have htake := takeWhile_append_stops hchars hstops
  have hdrop := dropWhile_append_stops hchars hstops
  obtain ⟨c, more, hlist, hc, _⟩ := hname
  have hbang : c ≠ '!' := by
    rintro rfl
    exact absurd hc (by decide)
  have hslash : c ≠ '/' := by
    rintro rfl
    exact absurd hc (by decide)
  -- The name starts neither a comment nor a closing tag.
  rw [readTag]
  · have hstrip : stripStart? "![CDATA[".toList
        (name.toList ++ (attributes.flatMap printAttribute ++ '>' :: rest)) = none := by
      rw [hlist]
      exact stripStart?_cons_ne (Ne.symm hbang) _ _
    have hhead : (name.toList ++ (attributes.flatMap printAttribute ++ '>' :: rest)).head? =
        some c := by
      rw [hlist]
      rfl
    rw [hstrip, hhead, htake, hdrop, readAttributes_print hkeys, String.ofList_toList]
    simp only [Option.any_some, hc, if_true]
    rfl
  · intro body h
    rw [hlist] at h
    exact absurd (List.cons.inj h).1 hbang
  · intro body h
    rw [hlist] at h
    exact absurd (List.cons.inj h).1 hslash

theorem readTag_closing {name : String} (hname : IsName name) (offset : Nat) (rest : List Char) :
    readTag offset ('/' :: (name.toList ++ '>' :: rest)) = (.closing name offset, rest) := by
  have hgt : '>' ∉ name.toList := by
    intro hmem
    exact absurd (isName_chars hname _ hmem) (by decide)
  have htrim : trim name.toList = name.toList :=
    trim_of_noBlank fun c hc => not_blank_of_isNameChar (isName_chars hname c hc)
  rw [readTag]
  simp only
  rw [breakOn_char hgt]
  simp [htrim]

theorem tokensFrom_tag {offset : Nat} {tag rest : List Char} {token : Token}
    (h : readTag offset (tag ++ rest) = (token, rest)) (ht : ∀ n, token ≠ .malformed n) :
    tokensFrom offset ('<' :: (tag ++ rest)) =
      token :: tokensFrom (offset + byteLength ('<' :: tag)) rest := by
  rw [tokensFrom, if_pos rfl]
  split
  · rename_i n after hread
    rw [h] at hread
    cases hread
    exact absurd rfl (ht n)
  · rename_i token' after hne hread
    rw [h] at hread
    cases hread
    congr 2
    rw [byteLength_append, byteLength_cons]
    have : '<'.utf8Size = 1 := by decide
    omega

theorem tokensFrom_openingTag {name : String} (hname : IsName name) {attributes : Attributes}
    (hkeys : ∀ a ∈ attributes, IsKey a.1) (offset : Nat) (rest : List Char) :
    tokensFrom offset (openingTag name attributes ++ rest) =
      .opening name attributes ::
        tokensFrom (offset + byteLength (openingTag name attributes)) rest := by
  rw [openingTag, List.cons_append]
  refine tokensFrom_tag ?_ nofun
  rw [List.append_assoc, List.append_assoc]
  exact readTag_opening hname hkeys offset rest

theorem tokensFrom_closingTag {name : String} (hname : IsName name) (offset : Nat)
    (rest : List Char) :
    tokensFrom offset (closingTag name ++ rest) =
      .closing name offset :: tokensFrom (offset + byteLength (closingTag name)) rest := by
  rw [closingTag, List.cons_append]
  refine tokensFrom_tag ?_ nofun
  rw [List.cons_append, List.append_assoc]
  exact readTag_closing hname offset rest

/-! ## Elements -/

mutual
/-- A node that is written down is read back behind what has been read before. -/
theorem grow_printNode (nodes : List Node) {node : Node} (hok : NodeOk node)
    (ha : Apart (nodes ++ [node])) (stack : List Frame) (offset : Nat) (rest : List Char) :
    grow nodes stack (tokensFrom offset (printNode node ++ rest)) =
      grow (nodes ++ [node]) stack (tokensFrom (offset + byteLength (printNode node)) rest) := by
  match node, hok with
  | .text content, hok =>
    rw [NodeOk] at hok
    rw [printNode, grow_escapeText]
    have hne : content.toList ≠ [] := by simpa using hok
    have hlast : ∀ last, nodes.getLast? = some last → last.isText = false := by
      intro last hl
      have := (apart_append_singleton.1 ha).2 last hl
      simpa [Node.isText] using this
    rw [addText_of_apart hne hlast, String.ofList_toList]
  | .element name attributes children, hok =>
    rw [NodeOk] at hok
    obtain ⟨hname, hkeys, hapart, hchildren⟩ := hok
    rw [printNode, List.append_assoc, List.append_assoc, tokensFrom_openingTag hname hkeys, grow,
      grow_printNodes [] hchildren hapart, List.nil_append, tokensFrom_closingTag hname, grow]
    rw [if_pos rfl, byteLength_append, byteLength_append, Nat.add_assoc, Nat.add_assoc]

theorem grow_printNodes (nodes : List Node) {forest : List Node} (hok : NodesOk forest)
    (ha : Apart (nodes ++ forest)) (stack : List Frame) (offset : Nat) (rest : List Char) :
    grow nodes stack (tokensFrom offset (printNodes forest ++ rest)) =
      grow (nodes ++ forest) stack
        (tokensFrom (offset + byteLength (printNodes forest)) rest) := by
  match forest, hok with
  | [], _ =>
    rw [List.append_nil, printNodes]
    rfl
  | node :: more, hok =>
    rw [NodesOk] at hok
    rw [List.append_cons] at ha
    rw [printNodes, List.append_assoc, grow_printNode nodes hok.1 ha.left_of_append,
      grow_printNodes (nodes ++ [node]) hok.2 ha, byteLength_append, Nat.add_assoc,
      ← List.append_cons]
end

theorem parse_print {forest : List Node} (h : WellFormed forest) :
    parse (print forest) = .ok forest := by
  have hgrow := grow_printNodes [] h.2 h.1 [] 0 []
  rw [List.append_nil] at hgrow
  rw [parse, print, String.toList_ofList, tokens, hgrow, tokensFrom]
  rfl

/-- What is read is well formed, and every well-formed forest is read back from what is
written.  So reading what is written of what was read gives the same again. -/
theorem parse_print_inverse :
    (∀ s forest, parse s = .ok forest → WellFormed forest) ∧
      (∀ forest, WellFormed forest → parse (print forest) = .ok forest) ∧
      ∀ s forest, parse s = .ok forest → parse (print forest) = parse s := by
  refine ⟨fun s forest h => wellFormed_of_parse h, fun forest h => parse_print h, ?_⟩
  intro s forest h
  rw [h, parse_print (wellFormed_of_parse h)]

/-- Text with both characters that need references, and an element whose value does. -/
def sampleForest : List Node :=
  [.text "a<b & c", .element "see" [("cref", "T:\"&amp;")] [.text "<", .element "x.y" [] []]]

theorem wellFormed_sampleForest : WellFormed sampleForest := by
  have hsee : IsName "see" :=
    ⟨'s', ['e', 'e'], by decide, by decide, List.all_eq_true.1 (by decide)⟩
  have hxy : IsName "x.y" := ⟨'x', ['.', 'y'], by decide, by decide, List.all_eq_true.1 (by decide)⟩
  have hcref : IsKey "cref" :=
    ⟨'c', ['r', 'e', 'f'], by decide, by decide, List.all_eq_true.1 (by decide)⟩
  have htext : "a<b & c" ≠ "" ∧ "<" ≠ "" := by decide
  refine ⟨by simp [Apart, sampleForest, Node.isText], htext.1, ?_, trivial⟩
  refine ⟨hsee, ?_, by simp [Apart, Node.isText], htext.2, ?_, trivial⟩
  · intro a ha
    rw [List.mem_singleton.1 ha]
    exact hcref
  · exact ⟨hxy, List.forall_mem_nil _, by simp [Apart], trivial⟩

theorem parse_print_inverse_sampleForest :
    WellFormed sampleForest ∧ parse (print sampleForest) = .ok sampleForest :=
  ⟨wellFormed_sampleForest, parse_print_inverse.2.1 sampleForest wellFormed_sampleForest⟩

end Markup
end DocPages
