/-
Forests and faults.

The tree is built with a stack of open elements.  `Reached` says which pieces lead to
which nodes and which stack, one step of the building keeps it, and so a whole run ends
in a forest that the pieces derive, or at their first fault.  The other way, what is
derived is what the run builds.
-/
import DocPages.Proofs.Markup.Reading

namespace DocPages
namespace Markup

open Text

/-! ## The signs of tokens -/

def Token.sign : Token → Sign
  | .text content => .text content
  | .opening name attributes => .opening name attributes
  | .selfClosing name attributes => .selfClosing name attributes
  | .closing name _ => .closing name
  | .malformed _ => .incomplete

theorem sign_token (offset : Nat) (sign : Sign) : (sign.token offset).sign = sign := by
  cases sign <;> rfl

theorem signs_tokensOf (offset : Nat) (pieces : List Piece) :
    (tokensOf offset pieces).map Token.sign = pieces.map Piece.sign := by
  induction pieces generalizing offset with
  | nil => rfl
  | cons piece rest ih => rw [tokensOf, List.map_cons, List.map_cons, sign_token, ih]

theorem tokensOf_append (offset : Nat) (a b : List Piece) :
    tokensOf offset (a ++ b) =
      tokensOf offset a ++ tokensOf (offset + byteLength (a.flatMap Piece.written)) b := by
  induction a generalizing offset with
  | nil => rfl
  | cons piece rest ih =>
      rw [List.cons_append, tokensOf, tokensOf, ih, List.flatMap_cons, byteLength_append,
        Nat.add_assoc]
      rfl

/-! ## There is one way to cut -/

/-- Where no tag starts, a piece is a reference or one character. -/
theorem Reads.eq_of_ne {c : Char} (hc : c ≠ '<') {s rest : List Char} {sign : Sign}
    (h : Reads (c :: s) sign rest) :
    (sign, rest) =
      ((if c = '&' then reference? s else none).map fun cut => (.text [cut.1], cut.2)).getD
        (.text [c], s) := by
  generalize hinput : c :: s = input at h
  cases h with
  | reference href =>
      obtain ⟨rfl, rfl⟩ := List.cons.inj hinput
      rw [if_pos rfl, reference?_eq_some_iff.2 href]
      rfl
  | ampersand hnone =>
      obtain ⟨rfl, rfl⟩ := List.cons.inj hinput
      rw [if_pos rfl, reference?_eq_none_iff.2 hnone]
      rfl
  | plain hplain =>
      obtain ⟨rfl, rfl⟩ := List.cons.inj hinput
      have hamp : c ≠ '&' := by
        rintro rfl
        cases hplain
      rw [if_neg hamp]
      rfl
  | _ => exact absurd (List.cons.inj hinput).1 hc

theorem Reads.unique {s rest rest' : List Char} {sign sign' : Sign} (h : Reads s sign rest)
    (h' : Reads s sign' rest') : sign = sign' ∧ rest = rest' := by
  obtain ⟨c, tail, rfl, _⟩ := h.suffix_tail
  by_cases hc : c = '<'
  · subst hc
    have heq := (readTag_of_reads 0 h).symm.trans (readTag_of_reads 0 h')
    obtain ⟨htoken, hrest⟩ := Prod.mk.inj heq
    have hsign := congrArg Token.sign htoken
    rw [sign_token, sign_token] at hsign
    exact ⟨hsign, hrest⟩
  · exact Prod.mk.inj ((h.eq_of_ne hc).trans (h'.eq_of_ne hc).symm)

theorem Cut.unique {s : List Char} {pieces others : List Piece} (h : Cut s pieces)
    (h' : Cut s others) : pieces = others := by
  induction h generalizing others with
  | nil =>
      generalize hs : ([] : List Char) = s at h'
      cases h' with
      | nil => rfl
      | piece h _ =>
          obtain ⟨c, tail, hcons, _⟩ := h.suffix_tail
          rw [hcons] at hs
          cases hs
      | incomplete h =>
          obtain ⟨⟨body, rfl, _⟩, _⟩ := h
          cases hs
  | @piece written rest sign pieces h _ ih =>
      generalize hs : written ++ rest = s at h h'
      cases h' with
      | nil =>
          obtain ⟨c, tail, hcons, _⟩ := h.suffix_tail
          cases hcons
      | @piece written' rest' sign' others h' hrest' =>
          obtain ⟨rfl, rfl⟩ := h.unique h'
          obtain rfl := List.append_cancel_right hs
          rw [ih hrest']
      | incomplete h' => exact absurd h (h'.2 _ _)
  | incomplete h =>
      cases h' with
      | nil =>
          obtain ⟨⟨body, hs, _⟩, _⟩ := h
          cases hs
      | piece h' _ => exact absurd h' (h.2 _ _)
      | incomplete _ => rfl

/-! ## From forests to runs -/

theorem grow_of_derives {signs : List Sign} {nodes : List Node} (h : Derives signs nodes)
    {tokens : List Token} (ht : tokens.map Token.sign = signs) (stack : List Frame)
    (rest : List Token) : grow [] stack (tokens ++ rest) = grow nodes stack rest := by
  induction h generalizing tokens stack rest with
  | nil =>
      obtain rfl := List.map_eq_nil_iff.1 ht
      rfl
  | text h content ih =>
      obtain ⟨before, last, rfl, hbefore, hlast⟩ := List.map_eq_append_iff.1 ht
      obtain ⟨token, rfl, htoken⟩ := List.map_eq_singleton_iff.1 hlast
      rw [List.append_assoc, ih hbefore]
      cases token <;> cases htoken
      rfl
  | selfClosing h name attributes ih =>
      obtain ⟨before, last, rfl, hbefore, hlast⟩ := List.map_eq_append_iff.1 ht
      obtain ⟨token, rfl, htoken⟩ := List.map_eq_singleton_iff.1 hlast
      rw [List.append_assoc, ih hbefore]
      cases token <;> cases htoken
      rfl
  | element h name attributes hinner ih ihinner =>
      obtain ⟨before, last, rfl, hbefore, hlast⟩ := List.map_eq_append_iff.1 ht
      obtain ⟨first, others, rfl, hfirst, hothers⟩ := List.map_eq_cons_iff.1 hlast
      obtain ⟨inner, last, rfl, hinner, hlast⟩ := List.map_eq_append_iff.1 hothers
      obtain ⟨token, rfl, htoken⟩ := List.map_eq_singleton_iff.1 hlast
      rw [List.append_assoc, ih hbefore]
      cases first <;> cases hfirst
      rw [List.cons_append, List.append_assoc, grow, ihinner hinner]
      cases token <;> cases htoken
      rw [List.singleton_append, grow, if_pos rfl]

/-- What is read so far: the nodes of the innermost open element, and the frames of the
open ones. -/
inductive Reached : List Sign → List Node → List Frame → Prop where
  | flat {signs : List Sign} {nodes : List Node} (h : Derives signs nodes) :
      Reached signs nodes []
  | inside {outer signs : List Sign} {nodes : List Node} {frame : Frame} {stack : List Frame}
      (houter : Reached outer frame.before stack) (h : Derives signs nodes) :
      Reached (outer ++ .opening frame.name frame.attributes :: signs) nodes (frame :: stack)

theorem grow_of_reached {signs : List Sign} {nodes : List Node} {stack : List Frame}
    (h : Reached signs nodes stack) {tokens : List Token} (ht : tokens.map Token.sign = signs)
    (rest : List Token) : grow [] [] (tokens ++ rest) = grow nodes stack rest := by
  induction h generalizing tokens rest with
  | flat h => exact grow_of_derives h ht [] rest
  | inside _ h ih =>
      obtain ⟨before, last, rfl, hbefore, hlast⟩ := List.map_eq_append_iff.1 ht
      obtain ⟨first, others, rfl, hfirst, hothers⟩ := List.map_eq_cons_iff.1 hlast
      rw [List.append_assoc, ih hbefore]
      cases first <;> cases hfirst
      rw [List.cons_append, grow, grow_of_derives h hothers]

theorem leavesOpen_iff {signs : List Sign} {names : List String} :
    LeavesOpen signs names ↔
      ∃ nodes stack, Reached signs nodes stack ∧ stack.map Frame.name = names := by
  constructor
  · intro h
    induction h with
    | flat h => exact ⟨_, [], .flat h, rfl⟩
    | inside _ name attributes h ih =>
        obtain ⟨before, stack, hreached, rfl⟩ := ih
        have hinside : Reached _ _ (⟨name, attributes, before⟩ :: stack) := .inside hreached h
        exact ⟨_, _, hinside, rfl⟩
  · rintro ⟨nodes, stack, h, rfl⟩
    induction h with
    | flat h => exact .flat h
    | inside _ h ih => exact .inside ih _ _ h

/-- The run from what is read so far. -/
theorem exists_grow_of_leavesOpen {pieces : List Piece} {names : List String}
    (h : LeavesOpen (pieces.map Piece.sign) names) :
    ∃ nodes stack, stack.map Frame.name = names ∧ ∀ rest,
      grow [] [] (tokensOf 0 (pieces ++ rest)) =
        grow nodes stack (tokensOf (byteLength (pieces.flatMap Piece.written)) rest) := by
  obtain ⟨nodes, stack, hreached, hnames⟩ := leavesOpen_iff.1 h
  refine ⟨nodes, stack, hnames, fun rest => ?_⟩
  rw [tokensOf_append, grow_of_reached hreached (signs_tokensOf 0 pieces), Nat.zero_add]

/-- The run builds what the pieces come to. -/
theorem grow_of_outcome {pieces : List Piece} {result : Except Fault (List Node)}
    (h : Outcome pieces result) : grow [] [] (tokensOf 0 pieces) = result := by
  cases h with
  | forest _ h =>
      have hrun := grow_of_derives h (signs_tokensOf 0 pieces) [] []
      rwa [List.append_nil] at hrun
  | @fault before after piece names fault hpieces hbefore h =>
      obtain ⟨nodes, stack, rfl, hrun⟩ := exists_grow_of_leavesOpen hbefore
      rw [hpieces, hrun, tokensOf]
      generalize piece.sign = sign at h
      generalize hnames : stack.map Frame.name = names at h
      cases h with
      | malformed => rfl
      | unopened =>
          obtain rfl := List.map_eq_nil_iff.1 hnames
          rfl
      | mismatched hne =>
          obtain ⟨frame, outer, rfl, rfl, _⟩ := List.map_eq_cons_iff.1 hnames
          rw [Sign.token, grow, if_neg hne]
  | unclosed h =>
      obtain ⟨nodes, stack, hnames, hrun⟩ := exists_grow_of_leavesOpen h
      obtain ⟨frame, outer, rfl, rfl, _⟩ := List.map_eq_cons_iff.1 hnames
      have hend := hrun []
      rw [List.append_nil] at hend
      rw [hend]
      rfl

/-! ## From runs to forests -/

theorem Reached.extend {signs more : List Sign} {nodes nodes' : List Node} {stack : List Frame}
    (hmore : ∀ signs, Derives signs nodes → Derives (signs ++ more) nodes')
    (h : Reached signs nodes stack) : Reached (signs ++ more) nodes' stack := by
  cases h with
  | flat h => exact .flat (hmore _ h)
  | inside houter h =>
      rw [List.append_assoc, List.cons_append]
      exact .inside houter (hmore _ h)

theorem Reached.close {signs : List Sign} {nodes : List Node} {frame : Frame}
    {stack : List Frame} (h : Reached signs nodes (frame :: stack)) :
    Reached (signs ++ [.closing frame.name])
      (frame.before ++ [.element frame.name frame.attributes nodes]) stack := by
  cases h with
  | inside houter hinner =>
      rw [List.append_assoc, List.cons_append]
      exact houter.extend fun signs h => .element h frame.name frame.attributes hinner

theorem derives_of_reached {signs : List Sign} {nodes : List Node} (h : Reached signs nodes []) :
    Derives signs nodes := by
  cases h with
  | flat h => exact h

theorem complete_of_derives {signs : List Sign} {nodes : List Node} (h : Derives signs nodes) :
    ∀ sign ∈ signs, sign ≠ .incomplete := by
  induction h with
  | nil => exact nofun
  | text _ _ ih => exact List.forall_mem_append.2 ⟨ih, List.forall_mem_singleton.2 nofun⟩
  | selfClosing _ _ _ ih => exact List.forall_mem_append.2 ⟨ih, List.forall_mem_singleton.2 nofun⟩
  | element _ _ _ _ ih ihinner =>
      refine List.forall_mem_append.2 ⟨ih, List.forall_mem_cons.2 ⟨nofun, ?_⟩⟩
      exact List.forall_mem_append.2 ⟨ihinner, List.forall_mem_singleton.2 nofun⟩

/-- A run that goes on from what is read so far ends in what all pieces come to. -/
theorem outcome_of_grow {nodes : List Node} {stack : List Frame} {done : List Piece}
    (rest : List Piece) (h : Reached (done.map Piece.sign) nodes stack) :
    Outcome (done ++ rest)
      (grow nodes stack (tokensOf (byteLength (done.flatMap Piece.written)) rest)) := by
  induction rest generalizing done nodes stack with
  | nil =>
      rw [List.append_nil, tokensOf]
      cases stack with
      | nil =>
          have hderives := derives_of_reached h
          have hcomplete := complete_of_derives hderives
          rw [List.forall_mem_map] at hcomplete
          exact .forest hcomplete hderives
      | cons frame outer => exact .unclosed (leavesOpen_iff.2 ⟨nodes, frame :: outer, h, rfl⟩)
  | cons piece rest ih =>
      have hopen := leavesOpen_iff.2 ⟨nodes, stack, h, rfl⟩
      have hnext : ∀ nodes' stack',
          Reached (done.map Piece.sign ++ [piece.sign]) nodes' stack' →
            Outcome (done ++ piece :: rest) (grow nodes' stack'
              (tokensOf (byteLength (done.flatMap Piece.written) + byteLength piece.written)
                rest)) := by
        intro nodes' stack' hreached
        have hdone : Reached ((done ++ [piece]).map Piece.sign) nodes' stack' := by
          rwa [List.map_append]
        have houtcome := ih hdone
        rwa [List.flatMap_append, List.flatMap_singleton, byteLength_append, ← List.append_cons]
          at houtcome
      have hfault : ∀ fault, FaultAt (byteLength (done.flatMap Piece.written))
          (stack.map Frame.name) piece.sign fault →
            Outcome (done ++ piece :: rest) (.error fault) :=
        fun fault hfault => .fault rfl hopen hfault
      rw [tokensOf]
      generalize piece.sign = sign at hnext hfault
      cases sign with
      | text content => exact hnext _ _ (h.extend fun _ hd => .text hd content)
      | selfClosing name attributes =>
          exact hnext _ _ (h.extend fun _ hd => .selfClosing hd name attributes)
      | opening name attributes =>
          have hinside : Reached _ _ (⟨name, attributes, nodes⟩ :: stack) := .inside h .nil
          exact hnext _ _ hinside
      | closing name =>
          cases stack with
          | nil => exact hfault _ .unopened
          | cons frame outer =>
              rw [Sign.token, grow]
              by_cases hname : frame.name = name
              · subst hname
                rw [if_pos rfl]
                exact hnext _ _ h.close
              · rw [if_neg hname]
                exact hfault _ (.mismatched hname)
      | incomplete => exact hfault _ .malformed

/-- A comment is cut in one way, and reading it gives what its pieces come to: the forest
that they derive, or the fault of the first tag that does not end or does not close what is
open, or the innermost tag that stays open where no tag is at fault. -/
theorem parse_eq_iff (s : String) :
    ∃ pieces, (∀ others, Cut s.toList others ↔ others = pieces) ∧
      ∀ result, parse s = result ↔ Outcome pieces result := by
  obtain ⟨pieces, hcut⟩ := exists_cut s.toList
  refine ⟨pieces, ?_, ?_⟩
  · intro others
    constructor
    · intro hothers
      exact hothers.unique hcut
    · rintro rfl
      exact hcut
  · have hrun : parse s = grow [] [] (tokensOf 0 pieces) := by
      rw [parse, tokens, grow_of_cut hcut]
    have hstart : Reached (([] : List Piece).map Piece.sign) [] [] := .flat .nil
    intro result
    rw [hrun]
    constructor
    · rintro rfl
      exact outcome_of_grow pieces hstart
    · exact grow_of_outcome

end Markup
end DocPages
