/-
References in text and in values.

A reference is read with all that follows in view, but no reference holds a `<`, and so the text
of an element is decoded as if it stood alone (`grow_text`).  A value is cut out before it is
decoded.  Around the element nothing changes: a comment is read into a context that an element is
put into (`Holds.run`), whatever the element holds.  Together this is `references_decoded`.
-/
import DocPages.Proofs.Markup.Joining

namespace DocPages
namespace Markup

open Text

/-! ## An element with the same text in either place -/

/-- An element with this text between its tags. -/
def withText (name : String) (raw : List Char) : List Char :=
  openingTag name [] ++ (raw ++ closingTag name)

/-- An element without content and with this text as the value of a key. -/
def withValue (name key : String) (raw : List Char) : List Char :=
  '<' :: (name.toList ++ ' ' :: (key.toList ++ '=' :: '"' :: (raw ++ ['"', '>'])))
    ++ closingTag name

section Elements

variable {name key : String} (hname : IsName name) (nodes : List Node) (stack : List Frame)
  (offset : Nat)

/-- A piece in front of a tag is read as if the text ended there. -/
theorem grow_piece {written more content : List Char} (h : Reads (written ++ more) (.text content) more)
    (rest : List Char) :
    grow nodes stack (tokensFrom offset (written ++ (more ++ '<' :: rest))) =
      grow (addText nodes content) stack
        (tokensFrom (offset + byteLength written) (more ++ '<' :: rest)) := by
  have hedge : isEdge '<' = true := rfl
  have hread := h.append_edge hedge rest
  rw [List.append_assoc] at hread
  rw [grow_of_reads nodes stack offset hread]
  rfl

/-- Text in front of a tag is decoded. -/
theorem grow_text {raw : List Char} (hraw : '<' ∉ raw) (rest : List Char) :
    ∃ offset', grow nodes stack (tokensFrom offset (raw ++ '<' :: rest)) =
      grow (addText nodes (decode raw)) stack (tokensFrom offset' ('<' :: rest)) := by
  have hdecodes := decodes_decode raw
  generalize decode raw = content at hdecodes ⊢
  induction hdecodes generalizing nodes offset with
  | nil => exact ⟨offset, rfl⟩
  | @reference s more content c href _ ih =>
      obtain ⟨letters, hletters, rfl⟩ := href
      have hcut : '&' :: (letters.toList ++ ';' :: more) = '&' :: (letters.toList ++ [';']) ++ more := by
        simp
      have hread : Reads ('&' :: (letters.toList ++ [';']) ++ more) (.text [c]) more := by
        rw [← hcut]
        exact .reference ⟨letters, hletters, rfl⟩
      have hmore : '<' ∉ more := by
        rw [hcut] at hraw
        exact fun hmem => hraw (List.mem_append_right _ hmem)
      rw [hcut, List.append_assoc, grow_piece _ _ _ hread]
      obtain ⟨offset', h⟩ := ih (addText nodes [c]) _ hmore
      exact ⟨offset', by rw [h, addText_addText]; rfl⟩
  | @ampersand s content hnone _ ih =>
      have hread : Reads (['&'] ++ s) (.text ['&']) s := .ampersand hnone
      obtain ⟨offset', h⟩ := ih (addText nodes ['&']) _ (List.not_mem_of_not_mem_cons hraw)
      refine ⟨offset', ?_⟩
      rw [List.cons_append, ← List.singleton_append, grow_piece _ _ _ hread, h, addText_addText]
      rfl
  | @plain s content c hc _ ih =>
      have hplain : isPlain c = true := by
        rw [isPlain, Bool.and_eq_true, bne_iff_ne, bne_iff_ne]
        exact ⟨fun h => hraw (h ▸ List.mem_cons_self), hc⟩
      have hread : Reads ([c] ++ s) (.text [c]) s := .plain hplain
      obtain ⟨offset', h⟩ := ih (addText nodes [c]) _ (List.not_mem_of_not_mem_cons hraw)
      refine ⟨offset', ?_⟩
      rw [List.cons_append, ← List.singleton_append, grow_piece _ _ _ hread, h, addText_addText]
      rfl

include hname

theorem grow_closingTag (frame : Frame) (hframe : frame.name = name) (rest : List Char) :
    grow nodes (frame :: stack) (tokensFrom offset (closingTag name ++ rest)) =
      grow (frame.before ++ [.element name frame.attributes nodes]) stack
        (tokensFrom (offset + byteLength (closingTag name)) rest) := by
  rw [tokensFrom_closingTag hname, grow, if_pos hframe, hframe]

theorem grow_withText {raw : List Char} (hraw : '<' ∉ raw) (rest : List Char) :
    ∃ offset', grow nodes stack (tokensFrom offset (withText name raw ++ rest)) =
      grow (nodes ++ [.element name [] (addText [] (decode raw))]) stack
        (tokensFrom offset' rest) := by
  rw [withText, List.append_assoc, List.append_assoc, tokensFrom_openingTag hname
    (List.forall_mem_nil _), grow]
  obtain ⟨offset', h⟩ := grow_text [] (⟨name, [], nodes⟩ :: stack)
    (offset + byteLength (openingTag name [])) hraw ('/' :: (name.toList ++ ['>']) ++ rest)
  exact ⟨_, h.trans (grow_closingTag hname _ stack offset' ⟨name, [], nodes⟩ rfl rest)⟩

/-- The value is cut out at the quote that ends it, and then decoded. -/
theorem reads_withValue (hkey : IsKey key) {raw : List Char} (hraw : '"' ∉ raw)
    (rest : List Char) :
    Reads ('<' :: (name.toList ++ ' ' :: (key.toList ++ '=' :: '"' :: (raw ++ '"' :: '>' :: rest))))
      (.opening name [(key, String.ofList (decode raw))]) rest := by
  have hfirst : FirstAt ['"'] (raw ++ '"' :: '>' :: rest) raw ('>' :: rest) :=
    (breakOn_eq_some_iff (List.cons_ne_nil _ [])).1 (breakOn_char hraw _)
  have hvalued : Valued ('"' :: (raw ++ '"' :: '>' :: rest)) (String.ofList (decode raw)) ('>' :: rest) :=
    .quoted rfl hfirst (decodes_decode raw)
  have hassigned : Assigned ([] ++ '=' :: ([] ++ '"' :: (raw ++ '"' :: '>' :: rest)))
      (String.ofList (decode raw)) ('>' :: rest) :=
    .value nofun nofun (stops_cons (by decide) _) hvalued
  have hinside := Inside.keyed hkey (stops_cons (by decide) _) hassigned .close
  exact .opening hname (stops_cons (by decide) _) (.blank (by decide) hinside)

theorem grow_withValue (hkey : IsKey key) {raw : List Char} (hraw : '"' ∉ raw)
    (rest : List Char) :
    ∃ offset', grow nodes stack (tokensFrom offset (withValue name key raw ++ rest)) =
      grow (nodes ++ [.element name [(key, String.ofList (decode raw))] []]) stack
        (tokensFrom offset' rest) := by
  have hread := reads_withValue hname hkey hraw (closingTag name ++ rest)
  have hcut : '<' :: (name.toList ++ ' ' :: (key.toList ++ '=' :: '"' ::
      (raw ++ '"' :: '>' :: (closingTag name ++ rest)))) =
      ('<' :: (name.toList ++ ' ' :: (key.toList ++ '=' :: '"' :: (raw ++ ['"', '>']))))
        ++ (closingTag name ++ rest) := by
    simp
  rw [hcut] at hread
  rw [withValue, List.append_assoc, grow_of_reads nodes stack offset hread, Sign.token, grow]
  exact ⟨_, grow_closingTag hname [] stack _ ⟨name, _, nodes⟩ rfl rest⟩

end Elements

/-! ## What stands around an element -/

/-- A forest with a place for one element. -/
inductive Context where
  | here (before after : List Node)
  | inside (before : List Node) (name : String) (attributes : Attributes) (inner : Context)
      (after : List Node)

namespace Context

def fill (element : Node) : Context → List Node
  | .here before after => before ++ element :: after
  | .inside before name attributes inner after =>
    before ++ .element name attributes (inner.fill element) :: after

def append (nodes : List Node) : Context → Context
  | .here before after => .here before (after ++ nodes)
  | .inside before name attributes inner after =>
    .inside before name attributes inner (after ++ nodes)

def addText (content : List Char) : Context → Context
  | .here before after => .here before (Markup.addText after content)
  | .inside before name attributes inner after =>
    .inside before name attributes inner (Markup.addText after content)

theorem fill_append (context : Context) (element : Node) (nodes : List Node) :
    (context.append nodes).fill element = context.fill element ++ nodes := by
  cases context with
  | here before after => simp [append, fill]
  | inside before name attributes inner after => simp [append, fill]

end Context

/-- Text behind an element joins no text before it. -/
theorem addText_append_element {element : Node} (helement : element.isText = false)
    (before after : List Node) (content : List Char) :
    addText (before ++ element :: after) content = before ++ element :: addText after content := by
  by_cases hc : content = []
  · subst hc
    rfl
  rcases List.eq_nil_or_concat after with rfl | ⟨more, last, rfl⟩
  · rw [addText_of_apart hc, addText_of_apart hc (by simp)]
    · simp
    · intro last hlast
      rw [List.getLast?_concat] at hlast
      rwa [← Option.some.inj hlast]
  · rw [List.concat_eq_append, ← List.cons_append, ← List.append_assoc]
    cases last with
    | text content' =>
        rw [addText_cons_of_text hc, addText_cons_of_text hc]
        simp
    | element name attributes children =>
        rw [addText_of_apart hc (isText_last_element _ name attributes children),
          addText_of_apart hc (isText_last_element _ name attributes children)]
        simp

theorem Context.fill_addText (context : Context) {element : Node}
    (helement : element.isText = false) (content : List Char) :
    (context.addText content).fill element = Markup.addText (context.fill element) content := by
  cases context with
  | here before after => exact (addText_append_element helement before after content).symm
  | inside before name attributes inner after =>
      exact (addText_append_element rfl before after content).symm

/-- What is built so far holds the element: among the nodes of the innermost open element, or
before an open element. -/
inductive Holds : (Node → List Node) → (Node → List Frame) → Prop where
  | nodes (context : Context) (stack : List Frame) : Holds context.fill fun _ => stack
  | frame (nodes : List Node) (inner : List Frame) (name : String) (attributes : Attributes)
      (context : Context) (outer : List Frame) :
      Holds (fun _ => nodes) fun element =>
        inner ++ ⟨name, attributes, context.fill element⟩ :: outer

/-- One token: it is a fault whatever the element is, or what is built still holds it. -/
theorem Holds.step {nodes : Node → List Node} {stack : Node → List Frame} (h : Holds nodes stack)
    (sign : Sign) :
    (∀ element offset rest, ∃ fault,
      grow (nodes element) (stack element) (sign.token offset :: rest) = .error fault) ∨
    ∃ nodes' stack', Holds nodes' stack' ∧
      ∀ element, element.isText = false → ∀ offset rest,
        grow (nodes element) (stack element) (sign.token offset :: rest) =
          grow (nodes' element) (stack' element) rest := by
  cases h with
  | nodes context stack =>
      cases sign with
      | text content =>
          refine .inr ⟨_, _, .nodes (context.addText content) stack, fun element he _ _ => ?_⟩
          rw [context.fill_addText he]
          rfl
      | opening name attributes =>
          exact .inr ⟨_, _, .frame [] [] name attributes context stack, fun _ _ _ _ => rfl⟩
      | selfClosing name attributes =>
          refine .inr ⟨_, _, .nodes (context.append [.element name attributes []]) stack,
            fun element _ _ _ => ?_⟩
          rw [context.fill_append]
          rfl
      | closing name =>
          cases stack with
          | nil => exact .inl fun _ _ _ => ⟨_, rfl⟩
          | cons frame outer =>
              by_cases hname : frame.name = name
              · refine .inr ⟨_, _, .nodes
                  (.inside frame.before frame.name frame.attributes context []) outer,
                  fun element _ _ _ => ?_⟩
                exact if_pos hname
              · exact .inl fun _ _ _ => ⟨_, if_neg hname⟩
      | incomplete => exact .inl fun _ _ _ => ⟨_, rfl⟩
  | frame nodes inner name attributes context outer =>
      cases sign with
      | text content =>
          exact .inr ⟨_, _, .frame (addText nodes content) inner name attributes context outer,
            fun _ _ _ _ => rfl⟩
      | opening name' attributes' =>
          exact .inr ⟨_, _, .frame [] (⟨name', attributes', nodes⟩ :: inner) name attributes
            context outer, fun _ _ _ _ => rfl⟩
      | selfClosing name' attributes' =>
          exact .inr ⟨_, _, .frame (nodes ++ [.element name' attributes' []]) inner name attributes
            context outer, fun _ _ _ _ => rfl⟩
      | closing name' =>
          cases inner with
          | nil =>
              by_cases hname : name = name'
              · refine .inr ⟨_, _, .nodes (context.append [.element name attributes nodes]) outer,
                  fun element _ _ _ => ?_⟩
                rw [context.fill_append]
                exact if_pos hname
              · exact .inl fun _ _ _ => ⟨_, if_neg hname⟩
          | cons first inner =>
              by_cases hname : first.name = name'
              · refine .inr ⟨_, _, .frame (first.before ++ [.element first.name first.attributes nodes])
                  inner name attributes context outer, fun element _ _ _ => ?_⟩
                exact if_pos hname
              · exact .inl fun _ _ _ => ⟨_, if_neg hname⟩
      | incomplete => exact .inl fun _ _ _ => ⟨_, rfl⟩

/-- A whole run: if it ends well with one element, it ends in the same context with any. -/
theorem Holds.run {nodes : Node → List Node} {stack : Node → List Frame} (h : Holds nodes stack)
    (pieces : List Piece) {element : Node} (helement : element.isText = false) {offset : Nat}
    {forest : List Node}
    (hrun : grow (nodes element) (stack element) (tokensOf offset pieces) = .ok forest) :
    ∃ context : Context, ∀ other, other.isText = false → ∀ offset,
      grow (nodes other) (stack other) (tokensOf offset pieces) = .ok (context.fill other) := by
  induction pieces generalizing nodes stack offset with
  | nil =>
      cases h with
      | nodes context stack =>
          cases stack with
          | nil => exact ⟨context, fun _ _ _ => rfl⟩
          | cons frame outer => cases hrun
      | frame nodes inner name attributes context outer => cases inner <;> cases hrun
  | cons piece rest ih =>
      rw [tokensOf] at hrun
      rcases h.step piece.sign with hfault | ⟨nodes', stack', hholds, hstep⟩
      · obtain ⟨fault, hfault⟩ := hfault element offset
          (tokensOf (offset + byteLength piece.written) rest)
        rw [hfault] at hrun
        cases hrun
      · rw [hstep element helement] at hrun
        obtain ⟨context, hcontext⟩ := ih hholds hrun
        refine ⟨context, fun other hother offset => ?_⟩
        rw [tokensOf, hstep other hother]
        exact hcontext other hother _

/-! ## What stands before it -/

/-- Every tag that starts in the text ends in it. -/
def Complete (s : List Char) : Prop :=
  ∃ pieces, Cut s pieces ∧ ∀ piece ∈ pieces, piece.sign ≠ .incomplete

theorem grow_append (tokens : List Token) (nodes : List Node) (stack : List Frame) :
    (∃ fault, ∀ rest, grow nodes stack (tokens ++ rest) = .error fault) ∨
      ∃ nodes' stack', ∀ rest, grow nodes stack (tokens ++ rest) = grow nodes' stack' rest := by
  induction tokens generalizing nodes stack with
  | nil => exact .inr ⟨nodes, stack, fun _ => rfl⟩
  | cons token more ih =>
      cases token with
      | text content => exact ih (addText nodes content) stack
      | opening name attributes => exact ih [] (⟨name, attributes, nodes⟩ :: stack)
      | selfClosing name attributes => exact ih (nodes ++ [.element name attributes []]) stack
      | closing name offset =>
          cases stack with
          | nil => exact .inl ⟨_, fun _ => rfl⟩
          | cons frame outer =>
              by_cases hname : frame.name = name
              · simp only [List.cons_append, grow, if_pos hname]
                exact ih (frame.before ++ [.element frame.name frame.attributes nodes]) outer
              · simp only [List.cons_append, grow, if_neg hname]
                exact .inl ⟨_, fun _ => rfl⟩
      | malformed offset => exact .inl ⟨_, fun _ => rfl⟩

/-- A tag behind such a text is read where the text left off. -/
theorem Complete.grow {before : List Char} (h : Complete before) :
    (∃ fault, ∀ rest, grow [] [] (tokens (before ++ '<' :: rest)) = .error fault) ∨
      ∃ nodes stack offset, ∀ rest, grow [] [] (tokens (before ++ '<' :: rest)) =
        grow nodes stack (tokensFrom offset ('<' :: rest)) := by
  obtain ⟨pieces, hcut, hcomplete⟩ := h
  have hedge : isEdge '<' = true := rfl
  have htokens : ∀ rest others, Cut ('<' :: rest) others →
      Markup.grow [] [] (tokens (before ++ '<' :: rest)) =
        Markup.grow [] [] (tokensOf 0 pieces ++
          tokensOf (0 + byteLength (pieces.flatMap Piece.written)) others) := by
    intro rest others hothers
    rw [tokens, grow_of_cut (hcut.append_edge hedge hcomplete hothers), tokensOf_append]
  rcases grow_append (tokensOf 0 pieces) [] [] with ⟨fault, hfault⟩ | ⟨nodes, stack, hstate⟩
  · refine .inl ⟨fault, fun rest => ?_⟩
    obtain ⟨others, hothers⟩ := exists_cut ('<' :: rest)
    rw [htokens rest others hothers, hfault]
  · refine .inr ⟨nodes, stack, 0 + byteLength (pieces.flatMap Piece.written), fun rest => ?_⟩
    obtain ⟨others, hothers⟩ := exists_cut ('<' :: rest)
    rw [htokens rest others hothers, hstate, ← grow_of_cut hothers]

/-! ## Text and values -/

theorem plainTexts_addText (content : List Char) :
    Node.plainTexts (addText [] content) = String.ofList content := by
  by_cases hc : content = []
  · subst hc
    rfl
  · rw [addText_of_apart hc (by simp)]
    simp [Node.plainTexts, Node.plainText]

theorem tail_withText (name : String) (raw after : List Char) :
    ∃ rest, withText name raw ++ after = '<' :: rest := ⟨_, rfl⟩

theorem tail_withValue (name key : String) (raw after : List Char) :
    ∃ rest, withValue name key raw ++ after = '<' :: rest := ⟨_, rfl⟩

/-- In every comment that can be read and every place behind complete tags, text of an element and
the same text as a value come to the same, which is what the text stands for on its own; and all
else is read alike. -/
theorem references_decoded {name key : String} (hname : IsName name) (hkey : IsKey key)
    {before after : List Char} (hbefore : Complete before) {sample : List Char}
    (hsample : '<' ∉ sample ∧ '"' ∉ sample)
    (hparses : Parses (String.ofList (before ++ (withText name sample ++ after))) ∨
      Parses (String.ofList (before ++ (withValue name key sample ++ after)))) :
    ∃ context : Context, ∀ raw : List Char, '<' ∉ raw → '"' ∉ raw →
      ∃ children : List Node,
        parse (String.ofList (before ++ (withText name raw ++ after))) =
          .ok (context.fill (.element name [] children)) ∧
        Node.plainTexts children = String.ofList (decode raw) ∧
        parse (String.ofList (before ++ (withValue name key raw ++ after))) =
          .ok (context.fill (.element name [(key, String.ofList (decode raw))] [])) := by
  simp only [Parses, parse, String.toList_ofList] at hparses ⊢
  obtain ⟨pieces, hcut⟩ := exists_cut after
  rcases hbefore.grow with ⟨fault, hfault⟩ | ⟨nodes, stack, offset, hstate⟩
  · rcases hparses with ⟨forest, h⟩ | ⟨forest, h⟩
    · obtain ⟨rest, hrest⟩ := tail_withText name sample after
      rw [hrest, hfault] at h
      cases h
    · obtain ⟨rest, hrest⟩ := tail_withValue name key sample after
      rw [hrest, hfault] at h
      cases h
  -- Both elements come to one more node where the text before them left off.
  have htext : ∀ raw, '<' ∉ raw → ∃ offset',
      grow [] [] (tokens (before ++ (withText name raw ++ after))) =
        grow (nodes ++ [.element name [] (addText [] (decode raw))]) stack
          (tokensOf offset' pieces) := by
    intro raw hraw
    obtain ⟨offset', h⟩ := grow_withText hname nodes stack offset hraw after
    obtain ⟨rest, hrest⟩ := tail_withText name raw after
    rw [hrest] at h ⊢
    exact ⟨offset', by rw [hstate, h, grow_of_cut hcut]⟩
  have hvalue : ∀ raw, '"' ∉ raw → ∃ offset',
      grow [] [] (tokens (before ++ (withValue name key raw ++ after))) =
        grow (nodes ++ [.element name [(key, String.ofList (decode raw))] []]) stack
          (tokensOf offset' pieces) := by
    intro raw hraw
    obtain ⟨offset', h⟩ := grow_withValue hname nodes stack offset hkey hraw after
    obtain ⟨rest, hrest⟩ := tail_withValue name key raw after
    rw [hrest] at h ⊢
    exact ⟨offset', by rw [hstate, h, grow_of_cut hcut]⟩
  have hholds : Holds (Context.here nodes []).fill fun _ => stack := .nodes _ stack
  have hcontext : ∃ context : Context, ∀ other, other.isText = false → ∀ offset,
      grow (nodes ++ [other]) stack (tokensOf offset pieces) = .ok (context.fill other) := by
    rcases hparses with ⟨forest, h⟩ | ⟨forest, h⟩
    · obtain ⟨offset', hrun⟩ := htext sample hsample.1
      rw [hrun] at h
      exact hholds.run pieces rfl h
    · obtain ⟨offset', hrun⟩ := hvalue sample hsample.2
      rw [hrun] at h
      exact hholds.run pieces rfl h
  obtain ⟨context, hcontext⟩ := hcontext
  refine ⟨context, fun raw hlt hquote => ⟨addText [] (decode raw), ?_, plainTexts_addText _, ?_⟩⟩
  · obtain ⟨offset', hrun⟩ := htext raw hlt
    rw [hrun, hcontext _ rfl]
  · obtain ⟨offset', hrun⟩ := hvalue raw hquote
    rw [hrun, hcontext _ rfl]

/-- A stray ampersand and an open element. -/
def frontSample : List Char := "é&<b>".toList

def backSample : List Char := ";&lt;</b>".toList

/-- Without its semicolon a name is no reference, even if one follows behind the tag. -/
def rawSample : List Char := "&#x41;&amp;lt; é&amp".toList

theorem complete_frontSample : Complete frontSample := by
  have hname : IsName "b" := ⟨'b', [], by decide, by decide, nofun⟩
  have hopening : Reads (('<' :: ("b".toList ++ ['>'])) ++ []) (.opening "b" []) [] :=
    .opening hname (stops_cons (by decide) _) .close
  have hstray : ∀ c rest, ¬ Refers "<b>".toList c rest :=
    reference?_eq_none_iff.1 (by decide +kernel)
  have hampersand : Reads (['&'] ++ "<b>".toList) (.text ['&']) "<b>".toList := .ampersand hstray
  have hplain : Reads (['é'] ++ "&<b>".toList) (.text ['é']) "&<b>".toList := .plain (by decide)
  refine ⟨_, .piece hplain (.piece hampersand (.piece hopening .nil)), ?_⟩
  simp

theorem parses_of_faultOf {markup : String} (h : faultOf (parse markup) = none) :
    Parses markup := by
  rw [Parses]
  cases hparse : parse markup with
  | ok nodes => exact ⟨nodes, rfl⟩
  | error fault =>
      rw [hparse] at h
      cases h

theorem references_decoded_sample :
    (Complete frontSample ∧
      Parses (String.ofList (frontSample ++ (withText "e" [] ++ backSample)))) ∧
    ∃ context : Context, ∃ children : List Node,
      parse (String.ofList (frontSample ++ (withText "e" rawSample ++ backSample))) =
        .ok (context.fill (.element "e" [] children)) ∧
      Node.plainTexts children = "A&lt; é&amp" ∧
      parse (String.ofList (frontSample ++ (withValue "e" "k" rawSample ++ backSample))) =
        .ok (context.fill (.element "e" [("k", "A&lt; é&amp")] [])) := by
  have hname : IsName "e" := ⟨'e', [], by decide, by decide, nofun⟩
  have hkey : IsKey "k" := ⟨'k', [], by decide, by decide, by decide⟩
  have hparses : Parses (String.ofList (frontSample ++ (withText "e" [] ++ backSample))) :=
    parses_of_faultOf (by decide +kernel)
  have hdecode : String.ofList (decode rawSample) = "A&lt; é&amp" := by decide +kernel
  obtain ⟨context, hcontext⟩ := references_decoded hname hkey complete_frontSample
    ⟨List.not_mem_nil, List.not_mem_nil⟩ (.inl hparses)
  obtain ⟨children, htext, hplain, hvalue⟩ := hcontext rawSample (by decide) (by decide)
  rw [hdecode] at hplain hvalue
  exact ⟨⟨complete_frontSample, hparses⟩, context, children, htext, hplain, hvalue⟩

end Markup
end DocPages
