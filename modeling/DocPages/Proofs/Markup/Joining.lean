/-
Two comments with a line break between them.

Nothing that a comment leaves pending at its end reaches beyond a line break: a tag that
ended ends where it did, a reference holds no line break, and a `<` or an ampersand that
started nothing still starts nothing.  So the pieces of the joined text are those of the
first comment, the break and those of the second (`Cut.join`), and what they come to is
what the second comes to, behind the nodes of the first (`Outcome.after`).  With the parts
of a type, each of which is a comment of its own, this gives `parse_joined`.
-/
import DocPages.Project.Basic
import DocPages.Proofs.Markup.Faults

namespace DocPages
namespace Markup

open Text

/-! ## Edges -/

/-- A character that nothing pending takes: no reference and no mark of a tag has it. -/
def isEdge (c : Char) : Bool := c == '\n' || c == '<'

theorem notMem_of_isEdge {edge : Char} (he : isEdge edge = true) {s : List Char}
    (hs : s.any isEdge = false) : edge ∉ s := by
  intro hmem
  have hany : s.any isEdge = true := List.any_eq_true.2 ⟨edge, hmem, he⟩
  rw [hs] at hany
  cases hany

theorem notMem_digits {edge : Char} {base : Nat} {digitOf : Char → Option Nat}
    (hdigit : digitOf edge = none) {s : List Char} {start value : Nat}
    (h : s.foldlM (fun n c => (digitOf c).map (n * base + ·)) start = some value) :
    edge ∉ s := by
  induction s generalizing start with
  | nil => exact List.not_mem_nil
  | cons c rest ih =>
      rw [List.foldlM_cons] at h
      obtain ⟨next, hnext, hrest⟩ := Option.bind_eq_some_iff.1 h
      rw [List.mem_cons, not_or]
      refine ⟨?_, ih hrest⟩
      rintro rfl
      rw [hdigit] at hnext
      cases hnext

theorem notMem_numeral {edge : Char} (he : isEdge edge = true) {base : Nat}
    {digitOf : Char → Option Nat} (hdigit : digitOf edge = none) {s : List Char} {value : Nat}
    (h : numeral? base digitOf s = some value) : edge ∉ s := by
  have hplus : edge ≠ '+' := by
    rintro rfl
    cases he
  unfold numeral? at h
  simp only at h
  split at h
  · split at h
    · cases h
    · rw [List.mem_cons, not_or]
      exact ⟨hplus, notMem_digits hdigit h⟩
  · split at h
    · cases h
    · exact notMem_digits hdigit h

theorem digit_of_isEdge {edge : Char} (he : isEdge edge = true) :
    hexDigit? edge = none ∧ decimalDigit? edge = none := by
  rw [isEdge, Bool.or_eq_true, beq_iff_eq, beq_iff_eq] at he
  rcases he with rfl | rfl <;> decide

/-- References hold no edge. -/
theorem edge_notMem_name {edge : Char} (he : isEdge edge = true) {name : String} {c : Char}
    (h : Names name c) : edge ∉ name.toList := by
  have hchar := h.char
  obtain ⟨hhex, hdecimal⟩ := digit_of_isEdge he
  -- Of a numeric reference only the digits are not fixed.
  have hnumber : ∀ (mark : List Char) {base : Nat} {digitOf : Char → Option Nat}
      {digits : List Char}, mark.any isEdge = false → digitOf edge = none →
        (numeral? base digitOf digits).bind charOfCode? = some c → edge ∉ mark ++ digits := by
    intro mark base digitOf digits hmark hdigit hvalue
    obtain ⟨value, hvalue, _⟩ := Option.bind_eq_some_iff.1 hvalue
    rw [List.mem_append, not_or]
    exact ⟨notMem_of_isEdge he hmark, notMem_numeral he hdigit hvalue⟩
  generalize name.toList = letters at hchar
  by_cases hnamed : letters ∈ ["lt", "gt", "amp", "quot", "apos"].map String.toList
  · have htable : ∀ letters ∈ ["lt", "gt", "amp", "quot", "apos"].map String.toList,
        letters.any isEdge = false := by decide
    exact notMem_of_isEdge he (htable letters hnamed)
  simp only [List.map_cons, List.map_nil, List.mem_cons, List.not_mem_nil, or_false, not_or]
    at hnamed
  simp only [entityChar?, hnamed, if_false] at hchar
  split at hchar
  · exact hnumber ['#', 'x'] (by decide) hhex hchar
  · exact hnumber ['#', 'X'] (by decide) hhex hchar
  · exact hnumber ['#'] (by decide) hdecimal hchar
  · cases hchar

theorem refers_of_refers_append {edge : Char} (he : isEdge edge = true) {s t rest : List Char}
    {c : Char} (h : Refers (s ++ edge :: t) c rest) : ∃ rest', Refers s c rest' := by
  obtain ⟨name, hname, hs⟩ := h
  have hprefix : name.toList ++ [';'] <+: s ++ edge :: t := ⟨rest, by simp [hs]⟩
  have hnone : edge ∉ name.toList ++ [';'] := by
    rw [List.mem_append, not_or]
    exact ⟨edge_notMem_name he hname, notMem_of_isEdge he (by decide)⟩
  obtain ⟨rest', hrest'⟩ := prefix_of_prefix_append_cons hprefix hnone
  exact ⟨rest', name, hname, by rw [← hrest', List.append_assoc]; rfl⟩

/-! ## A tag that ended -/

theorem Valued.append_right {s rest : List Char} {value : String} (h : Valued s value rest)
    (hrest : rest ≠ []) (t : List Char) : Valued (s ++ t) value (rest ++ t) := by
  cases h with
  | quoted hq hcut hvalue => exact .quoted hq (hcut.append_right t) hvalue
  | bare hstart hraw hstop hvalue =>
      have hstart' := hstart.append_right (List.append_ne_nil_of_right_ne_nil _ hrest) t
      rw [List.append_assoc] at hstart' ⊢
      exact .bare hstart' hraw (hstop.append_right hrest t) hvalue

theorem ne_nil_of_suffix {s rest : List Char} (h : rest <:+ s) (hrest : rest ≠ []) : s ≠ [] := by
  rintro rfl
  exact hrest (List.suffix_nil.1 h)

theorem Assigned.append_right {s rest : List Char} {value : String} (h : Assigned s value rest)
    (hrest : rest ≠ []) (t : List Char) : Assigned (s ++ t) value (rest ++ t) := by
  cases h with
  | @value before after s rest value hbefore hafter hs h =>
      have hne := ne_nil_of_suffix (suffix_of_valued h) hrest
      rw [List.append_assoc, List.cons_append, List.append_assoc]
      exact .value hbefore hafter (hs.append_right hne t) (h.append_right hrest t)
  | missing hbefore hstop hnone =>
      rw [List.append_assoc]
      exact .missing hbefore (hstop.append_right hrest t) (hnone.append_right hrest t)

theorem Inside.ne_nil {s rest : List Char} {attributes : Attributes} {alone : Bool}
    (h : Inside s attributes alone rest) : s ≠ [] := by
  induction h with
  | keyed hkey _ _ _ _ =>
      obtain ⟨c, more, hlist, _⟩ := hkey
      rw [hlist]
      exact nofun
  | _ => exact nofun

theorem Inside.append_right {s rest : List Char} {attributes : Attributes} {alone : Bool}
    (h : Inside s attributes alone rest) (t : List Char) :
    Inside (s ++ t) attributes alone (rest ++ t) := by
  induction h with
  | close => exact .close
  | closeItself => exact .closeItself
  | blank hc _ ih => exact .blank hc ih
  | slash hs h ih => exact .slash (hs.append_right h.ne_nil t) ih
  | equals _ ih => exact .equals ih
  | keyed hkey hs hvalue h ih =>
      -- The tag goes on after the value, so the value ends where it did.
      have hmore := h.ne_nil
      have hne := ne_nil_of_suffix (suffix_of_assigned hvalue) hmore
      rw [List.append_assoc]
      exact .keyed hkey (hs.append_right hne t) (hvalue.append_right hmore t) ih

/-! ## Pieces before an edge -/

theorem startsTag_of_append {edge : Char} (he : isEdge edge = true) {s t : List Char}
    (h : StartsTag (s ++ edge :: t)) : StartsTag s := by
  have hmark : ∀ mark : List Char, mark.any isEdge = false → mark <+: s ++ edge :: t → mark <+: s :=
    fun mark hnone hprefix =>
      prefix_of_prefix_append_cons hprefix (notMem_of_isEdge he hnone)
  rcases h with h | h | h | ⟨c, hc, hstart⟩
  · exact .inl (hmark _ (by decide) h)
  · exact .inr (.inl (hmark _ (by decide) h))
  · exact .inr (.inr (.inl (hmark _ (by decide) h)))
  · cases s with
    | nil =>
        cases hc
        rw [isEdge, Bool.or_eq_true, beq_iff_eq, beq_iff_eq] at he
        rcases he with rfl | rfl
        · exact absurd hstart (by decide)
        · exact absurd hstart (by decide)
    | cons d s => exact .inr (.inr (.inr ⟨c, hc, hstart⟩))

theorem Reads.append_edge {edge : Char} (he : isEdge edge = true) {s rest : List Char}
    {sign : Sign} (h : Reads s sign rest) (t : List Char) :
    Reads (s ++ edge :: t) sign (rest ++ edge :: t) := by
  cases h with
  | comment h =>
      have h' := h.append_right (edge :: t)
      rw [List.cons_append, List.append_assoc] at h' ⊢
      exact .comment h'
  | verbatim h =>
      rw [List.cons_append, List.append_assoc]
      exact .verbatim (h.append_right _)
  | closing h =>
      rw [List.cons_append, List.append_assoc]
      exact .closing (h.append_right _)
  | opening hname hs h =>
      rw [List.cons_append, List.append_assoc]
      exact .opening hname (hs.append_right h.ne_nil _) (h.append_right _)
  | selfClosing hname hs h =>
      rw [List.cons_append, List.append_assoc]
      exact .selfClosing hname (hs.append_right h.ne_nil _) (h.append_right _)
  | angle h => exact .angle fun hstart => h (startsTag_of_append he hstart)
  | reference h =>
      obtain ⟨name, hname, rfl⟩ := h
      exact .reference ⟨name, hname, List.append_assoc _ _ _⟩
  | ampersand h =>
      refine .ampersand fun c rest hrefers => ?_
      obtain ⟨rest', hrest'⟩ := refers_of_refers_append he hrefers
      exact h c rest' hrest'
  | plain h => exact .plain h

/-- A comment all of whose tags end keeps its pieces in front of an edge. -/
theorem Cut.append_edge {edge : Char} (he : isEdge edge = true) {s t : List Char}
    {pieces others : List Piece} (h : Cut s pieces)
    (hcomplete : ∀ piece ∈ pieces, piece.sign ≠ .incomplete) (ht : Cut (edge :: t) others) :
    Cut (s ++ edge :: t) (pieces ++ others) := by
  induction h with
  | nil => exact ht
  | piece h _ ih =>
      have hread := h.append_edge he t
      have hrest := ih fun piece hpiece => hcomplete piece (List.mem_cons_of_mem _ hpiece)
      rw [List.append_assoc] at hread ⊢
      exact .piece hread hrest
  | incomplete h => exact absurd rfl (hcomplete _ List.mem_cons_self)

def newlinePiece : Piece := ⟨['\n'], .text ['\n']⟩

theorem Cut.join {s t : List Char} {pieces others : List Piece} (h : Cut s pieces)
    (hcomplete : ∀ piece ∈ pieces, piece.sign ≠ .incomplete) (ht : Cut t others) :
    Cut (s ++ '\n' :: t) (pieces ++ newlinePiece :: others) := by
  have hbreak : Reads (['\n'] ++ t) (.text ['\n']) t := .plain (by decide)
  exact h.append_edge rfl hcomplete (.piece hbreak ht)

theorem Cut.written {s : List Char} {pieces : List Piece} (h : Cut s pieces) :
    pieces.flatMap Piece.written = s := by
  induction h with
  | nil => rfl
  | piece h _ ih => rw [List.flatMap_cons, ih]
  | incomplete h => exact List.flatMap_singleton _ _

/-! ## Forests side by side -/

/-- A node before others, of which the first may be text that goes on. -/
def fuseNode : Node → List Node → List Node
  | .text a, .text b :: rest => .text (a ++ b) :: rest
  | node, rest => node :: rest

/-- Nodes with every two neighbouring texts made one. -/
def fuse (nodes : List Node) : List Node := nodes.foldr fuseNode []

theorem fuse_cons (node : Node) (nodes : List Node) :
    fuse (node :: nodes) = fuseNode node (fuse nodes) := rfl

theorem isText_last_element (nodes : List Node) (name : String) (attributes : Attributes)
    (children : List Node) : ∀ last,
      (nodes ++ [Node.element name attributes children]).getLast? = some last →
        last.isText = false := by
  intro last hlast
  rw [List.getLast?_concat] at hlast
  cases hlast
  rfl

theorem addText_cons {nodes : List Node} (hne : nodes ≠ []) (node : Node) (content : List Char) :
    addText (node :: nodes) content = node :: addText nodes content := by
  obtain ⟨more, last, rfl⟩ := List.eq_nil_or_concat nodes |>.resolve_left hne
  by_cases hc : content = []
  · subst hc
    rfl
  cases last with
  | text before =>
      rw [List.concat_eq_append, ← List.cons_append, addText_cons_of_text hc,
        addText_cons_of_text hc]
      rfl
  | element name attributes children =>
      rw [List.concat_eq_append, ← List.cons_append,
        addText_of_apart hc (isText_last_element _ name attributes children),
        addText_of_apart hc (isText_last_element _ name attributes children)]
      rfl

theorem fuseNode_addText (node : Node) (nodes : List Node) (content : List Char) :
    fuseNode node (addText nodes content) = addText (fuseNode node nodes) content := by
  by_cases hc : content = []
  · subst hc
    rfl
  cases nodes with
  | nil => cases node <;> simp [addText, fuseNode, hc]
  | cons first rest =>
      by_cases hrest : rest = []
      · subst hrest
        cases node <;> cases first <;> simp [addText, fuseNode, hc, String.append_assoc]
      · rw [addText_cons hrest]
        cases node <;> cases first <;> simp [fuseNode, addText_cons, hrest]

theorem fuse_addText (nodes : List Node) (content : List Char) :
    fuse (addText nodes content) = addText (fuse nodes) content := by
  by_cases hc : content = []
  · subst hc
    rfl
  induction nodes with
  | nil => simp [addText, fuse, fuseNode, hc]
  | cons node rest ih =>
      by_cases hrest : rest = []
      · subst hrest
        cases node <;> simp [addText, fuse, fuseNode, hc]
      · rw [addText_cons hrest, fuse_cons, ih, fuseNode_addText, fuse_cons]

/-- Text that goes on at the end is fused there, whatever stands before. -/
theorem fuse_append_addText (front nodes : List Node) (content : List Char) :
    fuse (front ++ addText nodes content) = addText (fuse (front ++ nodes)) content := by
  induction front with
  | nil => exact fuse_addText nodes content
  | cons node rest ih =>
      rw [List.cons_append, fuse_cons, ih, fuseNode_addText, List.cons_append, fuse_cons]

theorem fuse_concat_element (nodes : List Node) (name : String) (attributes : Attributes)
    (children : List Node) :
    fuse (nodes ++ [.element name attributes children]) =
      fuse nodes ++ [.element name attributes children] := by
  induction nodes with
  | nil => rfl
  | cons node rest ih =>
      rw [List.cons_append, fuse_cons, ih, fuse_cons]
      cases node <;> rcases fuse rest with _ | ⟨_ | _, _⟩ <;> rfl

theorem fuse_of_derives {signs : List Sign} {nodes : List Node} (h : Derives signs nodes) :
    fuse nodes = nodes := by
  induction h with
  | nil => rfl
  | text _ content ih => rw [fuse_addText, ih]
  | selfClosing _ name attributes ih => rw [fuse_concat_element, ih]
  | element _ name attributes _ ih _ => rw [fuse_concat_element, ih]

section After

variable {front : List Node} {signs : List Sign} (hfront : Derives signs (fuse front))

include hfront

theorem derives_after {more : List Sign} {nodes : List Node} (h : Derives more nodes) :
    Derives (signs ++ more) (fuse (front ++ nodes)) := by
  induction h with
  | nil => rwa [List.append_nil, List.append_nil]
  | text _ content ih =>
      rw [← List.append_assoc, fuse_append_addText]
      exact .text ih content
  | selfClosing _ name attributes ih =>
      rw [← List.append_assoc, ← List.append_assoc, fuse_concat_element]
      exact .selfClosing ih name attributes
  | element _ name attributes hinner ih _ =>
      rw [← List.append_assoc, ← List.append_assoc, fuse_concat_element]
      exact .element ih name attributes hinner

theorem leavesOpen_after {more : List Sign} {names : List String} (h : LeavesOpen more names) :
    LeavesOpen (signs ++ more) names := by
  induction h with
  | flat h => exact .flat (derives_after hfront h)
  | inside _ name attributes h ih =>
      rw [← List.append_assoc]
      exact .inside ih name attributes h

end After

/-! ## Faults further on -/

/-- The same fault in a text that starts so many bytes further on. -/
def Fault.shift (bytes : Nat) : Fault → Fault
  | .mismatchedClose expected found offset => .mismatchedClose expected found (bytes + offset)
  | .unopenedClose name => .unopenedClose name
  | .unclosed name => .unclosed name
  | .malformedTag offset => .malformedTag (bytes + offset)

theorem FaultAt.shift {offset : Nat} {names : List String} {sign : Sign} {fault : Fault}
    (h : FaultAt offset names sign fault) (bytes : Nat) :
    FaultAt (bytes + offset) names sign (fault.shift bytes) := by
  cases h with
  | malformed => exact .malformed
  | unopened => exact .unopened
  | mismatched h => exact .mismatched h

/-- What a comment comes to behind nodes that are read before it. -/
def behind (front : List Node) (bytes : Nat) :
    Except Fault (List Node) → Except Fault (List Node)
  | .ok nodes => .ok (fuse (front ++ nodes))
  | .error fault => .error (fault.shift bytes)

theorem Outcome.after {front : List Node} {done pieces : List Piece}
    {result : Except Fault (List Node)} (h : Outcome pieces result)
    (hfront : Derives (done.map Piece.sign) (fuse front)) :
    Outcome (done ++ pieces)
      (behind front (byteLength (done.flatMap Piece.written)) result) := by
  cases h with
  | forest _ h =>
      have hall := derives_after hfront h
      rw [← List.map_append] at hall
      have hcomplete := complete_of_derives hall
      rw [List.forall_mem_map] at hcomplete
      exact .forest hcomplete hall
  | @fault before after piece names fault hpieces hbefore h =>
      have hopen := leavesOpen_after hfront hbefore
      rw [← List.map_append] at hopen
      have hfault := h.shift (byteLength (done.flatMap Piece.written))
      rw [← byteLength_append, ← List.flatMap_append] at hfault
      exact .fault (by rw [hpieces, List.append_assoc]) hopen hfault
  | unclosed h =>
      have hopen := leavesOpen_after hfront h
      rw [← List.map_append] at hopen
      exact .unclosed hopen

theorem parse_of_outcome {s : String} {pieces : List Piece} (hcut : Cut s.toList pieces)
    {result : Except Fault (List Node)} (h : Outcome pieces result) : parse s = result := by
  rw [parse, tokens, grow_of_cut hcut, grow_of_outcome h]

theorem outcome_of_parse {s : String} {pieces : List Piece} (hcut : Cut s.toList pieces) :
    Outcome pieces (parse s) := by
  have hstart : Reached (([] : List Piece).map Piece.sign) [] [] := .flat .nil
  rw [parse, tokens, grow_of_cut hcut]
  exact outcome_of_grow pieces hstart

theorem byteLength_toList (s : String) : byteLength s.toList = s.utf8ByteSize := by
  obtain ⟨letters, rfl⟩ : ∃ letters, s = String.ofList letters :=
    ⟨s.toList, String.ofList_toList.symm⟩
  rw [String.toList_ofList]
  induction letters with
  | nil => rfl
  | cons c rest ih =>
      rw [byteLength_cons, ih, String.ofList_cons, String.utf8ByteSize_append,
        String.utf8ByteSize_singleton]

/-- A comment behind one that is well formed: what it comes to does not depend on the
other, but for where it stands. -/
theorem parse_append_newline {a : String} {front : List Node} (h : parse a = .ok front)
    (b : String) :
    parse (a ++ "\n" ++ b) =
      behind (front ++ [.text "\n"]) (a.utf8ByteSize + 1) (parse b) := by
  obtain ⟨pieces, hcut⟩ := exists_cut a.toList
  obtain ⟨others, hothers⟩ := exists_cut b.toList
  have houtcome := outcome_of_parse hcut
  rw [h] at houtcome
  cases houtcome with
  | forest hcomplete hderives =>
      have hjoin : Cut (a ++ "\n" ++ b).toList ((pieces ++ [newlinePiece]) ++ others) := by
        rw [String.toList_append, String.toList_append, List.append_assoc, List.append_assoc]
        exact hcut.join hcomplete hothers
      have hfront : Derives ((pieces ++ [newlinePiece]).map Piece.sign)
          (fuse (front ++ [.text "\n"])) := by
        have hbreak : [Node.text "\n"] = addText [] ['\n'] := rfl
        rw [List.map_append, hbreak, fuse_append_addText, List.append_nil,
          fuse_of_derives hderives]
        exact .text hderives ['\n']
      have hbytes : byteLength ((pieces ++ [newlinePiece]).flatMap Piece.written) =
          a.utf8ByteSize + 1 := by
        rw [List.flatMap_append, hcut.written, byteLength_append, byteLength_toList]
        rfl
      have hall := (outcome_of_parse hothers).after hfront
      rw [hbytes] at hall
      exact parse_of_outcome hjoin hall

/-! ## The parts of a type -/

/-- The elements at the top level of a comment, in order. -/
def elements (markup : String) : List Node :=
  ((parse markup).toOption.getD []).filter (! ·.isText)

/-- A comment that is well-formed markup. -/
def Parses (markup : String) : Prop := ∃ nodes, parse markup = .ok nodes

theorem filter_fuse (nodes : List Node) :
    (fuse nodes).filter (! ·.isText) = nodes.filter (! ·.isText) := by
  induction nodes with
  | nil => rfl
  | cons node rest ih =>
      have hnode : (fuseNode node (fuse rest)).filter (! ·.isText) =
          (node :: fuse rest).filter (! ·.isText) := by
        cases node <;> rcases fuse rest with _ | ⟨_ | _, _⟩ <;> rfl
      rw [fuse_cons, hnode, List.filter_cons, List.filter_cons, ih]

theorem parses_append_newline {a b : String} (ha : Parses a) (hb : Parses b) :
    Parses (a ++ "\n" ++ b) ∧ elements (a ++ "\n" ++ b) = elements a ++ elements b := by
  obtain ⟨A, hA⟩ := ha
  obtain ⟨B, hB⟩ := hb
  have hjoin := parse_append_newline hA b
  rw [hB] at hjoin
  refine ⟨⟨_, hjoin⟩, ?_⟩
  simp only [elements, hjoin, hA, hB, behind, Except.toOption, Option.getD_some]
  rw [filter_fuse, List.filter_append, List.filter_append]
  simp [Node.isText]

theorem parses_empty : Parses "" ∧ elements "" = [] := by
  have hempty : parse "" = .ok [] := by
    rw [parse, String.toList_empty, tokens, tokensFrom]
    rfl
  exact ⟨⟨[], hempty⟩, by rw [elements, hempty]; rfl⟩

/-- A part goes behind what is said already, unless it says nothing or the same again. -/
theorem parses_merge {item part : Item} (hitem : Parses item.markup)
    (hpart : Parses part.markup) :
    Parses (item.merge part).markup ∧
      (elements (item.merge part).markup = elements item.markup ++ elements part.markup ∨
        elements (item.merge part).markup = elements item.markup ∧
          elements part.markup <:+: elements item.markup) := by
  rw [Item.merge]
  simp only
  split
  · rename_i hsaid
    refine ⟨hitem, .inr ⟨rfl, ?_⟩⟩
    rw [Bool.or_eq_true, String.isEmpty_iff, beq_iff_eq] at hsaid
    rcases hsaid with hempty | hsame
    · rw [hempty, parses_empty.2]
      exact List.nil_infix
    · exact ⟨[], [], by rw [hsame, List.nil_append, List.append_nil]⟩
  · split
    · rename_i hempty
      rw [String.isEmpty_iff] at hempty
      refine ⟨hpart, .inl ?_⟩
      rw [hempty, parses_empty.2, List.nil_append]
    · obtain ⟨hjoined, helements⟩ := parses_append_newline hitem hpart
      exact ⟨hjoined, .inl helements⟩

theorem parses_foldl_merge (parts : List Item) {item : Item} (hitem : Parses item.markup)
    (hparts : ∀ part ∈ parts, Parses part.markup) :
    Parses (parts.foldl Item.merge item).markup ∧
      (∃ added : List Item, added.Sublist parts ∧
        elements (parts.foldl Item.merge item).markup =
          elements item.markup ++ added.flatMap fun part => elements part.markup) ∧
      ∀ part ∈ parts,
        elements part.markup <:+: elements (parts.foldl Item.merge item).markup := by
  induction parts generalizing item with
  | nil => exact ⟨hitem, ⟨[], List.Sublist.refl _, (List.append_nil _).symm⟩, nofun⟩
  | cons part rest ih =>
      obtain ⟨hpart, hrest⟩ := List.forall_mem_cons.1 hparts
      obtain ⟨hmerged, hadds⟩ := parses_merge hitem hpart
      obtain ⟨hall, ⟨added, hadded, hwhole⟩, hkept⟩ := ih hmerged hrest
      have hfirst : elements (item.merge part).markup <:+:
          elements (rest.foldl Item.merge (item.merge part)).markup := by
        rw [hwhole]
        exact (List.prefix_append _ _).isInfix
      rw [List.foldl_cons]
      refine ⟨hall, ?_, List.forall_mem_cons.2 ⟨?_, hkept⟩⟩
      · rcases hadds with hadds | ⟨hsame, _⟩
        · refine ⟨part :: added, hadded.cons_cons part, ?_⟩
          rw [hwhole, hadds, List.flatMap_cons, List.append_assoc]
        · exact ⟨added, hadded.cons part, by rw [hwhole, hsame]⟩
      · refine List.IsInfix.trans ?_ hfirst
        rcases hadds with hadds | ⟨hsame, hinfix⟩
        · rw [hadds]
          exact (List.suffix_append _ _).isInfix
        · rwa [hsame]

theorem item?_foldl_mergePart (parts : List Item) {p : Project} {id : ItemId} {item : Item}
    (h : p.item? id = some item) :
    (parts.foldl (fun p part => p.mergePart id part) p).item? id =
      some (parts.foldl Item.merge item) := by
  induction parts generalizing p item with
  | nil => exact h
  | cons part rest ih =>
      apply ih
      have hmerge : (p.mergePart id part).item? id = (p.item? id).map (·.merge part) :=
        Array.getElem?_modify.trans (if_pos rfl)
      rw [hmerge, h, Option.map_some]

/-- A comment behind a well-formed one is read as if it stood alone: its nodes follow those
of the first with the line break between them, and its fault is the same, further on by the
bytes of the first and of the break.  So parts that are well formed are merged to a whole
that is, and their elements stand in it in their order.  The parts that add nothing are
those that have nothing new to say. -/
theorem parse_joined :
    (∀ a b front nodes, parse a = .ok front → parse b = .ok nodes →
      parse (a ++ "\n" ++ b) = .ok (fuse (front ++ .text "\n" :: nodes))) ∧
    (∀ a b front fault, parse a = .ok front → parse b = .error fault →
      parse (a ++ "\n" ++ b) = .error (fault.shift (a.utf8ByteSize + 1))) ∧
    ∀ (p : Project) (id : ItemId) (item : Item) (parts : List Item), p.item? id = some item →
      Parses item.markup → (∀ part ∈ parts, Parses part.markup) →
        ∃ whole,
          (parts.foldl (fun p part => p.mergePart id part) p).item? id = some whole ∧
          Parses whole.markup ∧
          (∃ added : List Item, added.Sublist parts ∧
            elements whole.markup =
              elements item.markup ++ added.flatMap fun part => elements part.markup) ∧
          ∀ part ∈ parts, elements part.markup <:+: elements whole.markup := by
  refine ⟨?_, ?_, ?_⟩
  · intro a b front nodes ha hb
    rw [parse_append_newline ha, hb, behind, ← List.append_cons]
  · intro a b front fault ha hb
    rw [parse_append_newline ha, hb, behind]
  · intro p id item parts hid hitem hparts
    exact ⟨_, item?_foldl_mergePart parts hid, parses_foldl_merge parts hitem hparts⟩

/-! ### Text before an element, and before a fault -/

def faultOf : Except Fault (List Node) → Option Fault
  | .ok _ => none
  | .error fault => some fault

theorem eq_error_of_faultOf {result : Except Fault (List Node)} {fault : Fault}
    (h : faultOf result = some fault) : result = .error fault := by
  cases result with
  | ok nodes => cases h
  | error fault' => rw [Option.some.inj h]

theorem parse_textSample : parse "a&amp;" = .ok [.text "a&"] := by
  have hfilled : "a&" ≠ "" := by decide
  have hok : NodesOk [.text "a&"] := ⟨hfilled, trivial⟩
  have hprint : print [.text "a&"] = "a&amp;" := by decide +kernel
  rw [← hprint]
  exact parse_print ⟨List.isChain_singleton _, hok⟩

theorem parse_elementSample : parse "<b></b>" = .ok [.element "b" [] []] := by
  have hname : IsName "b" := ⟨'b', [], by decide, by decide, nofun⟩
  have hok : NodesOk [.element "b" [] []] := ⟨⟨hname, nofun, List.isChain_nil, trivial⟩, trivial⟩
  have hprint : print [.element "b" [] []] = "<b></b>" := by decide +kernel
  rw [← hprint]
  exact parse_print ⟨List.isChain_singleton _, hok⟩

theorem parse_faultSample : parse "é<b>y</c>" = .error (.mismatchedClose "b" "c" 6) :=
  eq_error_of_faultOf (by decide +kernel)

def textItem : Item := Item.new "A" "class" "a&amp;"

def elementPart : Item := Item.new "A" "class" "<b></b>"

theorem parse_joined_samples :
    parse "a&amp;\n<b></b>" = .ok [.text "a&\n", .element "b" [] []] ∧
    parse "a&amp;\né<b>y</c>" = .error (.mismatchedClose "b" "c" 13) ∧
    ∃ whole,
      ([elementPart, elementPart].foldl (fun p part => p.mergePart 0 part)
        ({ items := #[textItem] } : Project)).item? 0 = some whole ∧
      Parses whole.markup ∧
      (∃ added : List Item, added.Sublist [elementPart, elementPart] ∧
        elements whole.markup =
          elements textItem.markup ++ added.flatMap fun part => elements part.markup) ∧
      ∀ part ∈ [elementPart, elementPart], elements part.markup <:+: elements whole.markup := by
  refine ⟨?_, ?_, ?_⟩
  · exact parse_joined.1 "a&amp;" "<b></b>" _ _ parse_textSample parse_elementSample
  · exact parse_joined.2.1 "a&amp;" "é<b>y</c>" _ _ parse_textSample parse_faultSample
  · refine parse_joined.2.2 { items := #[textItem] } 0 textItem [elementPart, elementPart] rfl
      ⟨_, parse_textSample⟩ ?_
    intro part hpart
    obtain rfl : part = elementPart := by simpa using hpart
    exact ⟨_, parse_elementSample⟩

end Markup
end DocPages
