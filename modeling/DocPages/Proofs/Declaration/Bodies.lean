/-
The bodies that a scan passes over say nothing.

A brace opens a scope if the header in front of it is that of a namespace or of a
class, struct or interface; any other brace opens a body.  Another text in its place
gives the same declarations: `scan_replace_body`.
-/
import DocPages.Proofs.Declaration.Lookahead
import DocPages.Proofs.Declaration.Moves
import DocPages.Proofs.Declaration.Steps

namespace DocPages
namespace Declaration

open Text

/-! ## Runs that come to the same -/

section Agree

variable {ε ε' δ δ' α β : Type}

/-- If one of the two gives a result, the other gives it too. -/
def Agree (x : Except ε α) (y : Except ε' α) : Prop := ∀ a, x = .ok a ↔ y = .ok a

theorem Agree.bind {x y : Except ε α} (h : Agree x y) (f : α → Except ε β) :
    Agree (x.bind f) (y.bind f) := by
  intro b
  simp only [bind_eq_ok, h _]

theorem Agree.map {x : Except ε α} {y : Except ε' α} (h : Agree x y) (f : α → β) :
    Agree (x.map f) (y.map f) := by
  intro b
  simp only [map_eq_ok, h _]

theorem Agree.mapError {x y : Except ε α} (h : Agree x y) (f : ε → δ) (g : ε → δ') :
    Agree (x.mapError f) (y.mapError g) := by
  intro a
  simp only [mapError_eq_ok, h _]

end Agree

/-! ## What a brace opens -/

theorem local_pass {edge : Char} (edge' : Char) [IsEdge edge] [IsEdge edge'] {opening : Opening}
    {p x rest : List Char} (h : opening.pass (p ++ edge :: x) = .ok rest)
    (hlt : x.length < rest.length) :
    ∃ q, rest = q ++ edge :: x ∧
      ∀ y, (opening = .property → allBlank q = true → atAssignment (edge' :: y) = false) →
        opening.pass (p ++ edge' :: y) = .ok (q ++ edge' :: y) := by
  cases opening with
  | scope =>
      cases h
      exact ⟨p, rfl, fun _ _ => rfl⟩
  | body =>
      obtain ⟨q, hq, hread⟩ := local_afterBlock edge' h hlt
      exact ⟨q, hq, fun y _ => hread y⟩
  | property =>
      obtain ⟨after, hblock, hinit⟩ := bind_eq_ok.1 h
      have hafter := Nat.lt_of_lt_of_le hlt (afterInitializer_length hinit)
      obtain ⟨q, rfl, hread⟩ := local_afterBlock edge' hblock hafter
      obtain ⟨q', hq', hread'⟩ := local_afterInitializer edge' hinit hlt
      exact ⟨q', hq', fun y hy => bind_eq_ok.2 ⟨_, hread y, hread' y (hy rfl)⟩⟩

namespace State

/-- The headers of the braces that are not passed over. -/
def OpensScope (header : List Char) : Prop :=
  findAssignment header = none ∧
    ((stripStart? "namespace ".toList header).isSome = true ∨
      (readTypeHeader header).any (fun type => type.kind.isContainer) = true)

instance : DecidablePred OpensScope := fun _ => inferInstanceAs (Decidable (_ ∧ _))

theorem opening_eq_scope {st : State} :
    st.opening = .scope ↔ OpensScope (trim st.statement.header) := by
  unfold opening OpensScope
  dsimp only
  cases findAssignment (trim st.statement.header) with
  | some found => simp
  | none =>
      cases stripStart? "namespace ".toList (trim st.statement.header) with
      | some name => simp
      | none =>
          cases readTypeHeader (trim st.statement.header) with
          | some type => simp
          | none =>
              cases st.enclosingType with
              | none => simp
              | some owner =>
                  dsimp only
                  cases (trim st.statement.header).contains '(' ||
                    (trim st.statement.header).isEmpty <;> simp

/-- The headers of methods, properties and enums. -/
inductive MemberHeader (h : List Char) : Prop where
  | member {marks : List Char} (hh : IsHeader h) (hp : Phrase reserved marks h)
  | enum (name : Name) (bases : List TypeName) (heq : h = typeHeader .enumType name bases)

theorem MemberHeader.not_opensScope {h : List Char} (hmember : MemberHeader h) :
    ¬OpensScope h := by
  cases hmember with
  | member hh hp =>
      rintro ⟨-, hname | htype⟩
      · rw [member_notNamespace hh.starts hp] at hname
        cases hname
      · rw [hp.readTypeHeader_eq_none (by decide)] at htype
        cases htype
  | enum name bases heq =>
      obtain ⟨type, htype, hkind, -⟩ := readTypeHeader_typeHeader (Or.inr rfl) name bases
      rintro ⟨-, hname | hcontainer⟩
      · rw [heq, typeHeader_notNamespace] at hname
        cases hname
      · rw [heq, htype, Option.any_some, hkind] at hcontainer
        cases hcontainer

/-! ## A step does not look behind an edge -/

theorem readComment_eq (st : State) (s text : List Char) :
    st.readComment s text =
      if "////".toList <+: s then st.touchLine.closeComment
      else if "///".toList <+: s then st.lineComment text
      else if "/**/".toList <+: s then st.touchLine.closeComment
      else if "/**".toList <+: s then st.blockComment text
      else st.touchLine.closeComment := by
  unfold readComment
  split
  · exact (if_pos ⟨_, rfl⟩).symm
  · rename_i t hfour
    rw [if_neg, if_pos ⟨t, rfl⟩]
    rintro ⟨u, hu⟩
    simp at hu
    exact hfour u hu.symm
  · rfl
  · rename_i t hfour
    rw [if_neg (by simp), if_neg (by simp), if_neg, if_pos ⟨t, rfl⟩]
    rintro ⟨u, hu⟩
    simp at hu
    exact hfour u hu.symm
  · rename_i h4 h3 hb4 hb3
    rw [if_neg, if_neg, if_neg, if_neg]
    all_goals
      rintro ⟨u, hu⟩
    · exact hb3 u hu.symm
    · exact hb4 u hu.symm
    · exact h3 u hu.symm
    · exact h4 u hu.symm

section Edge

variable {edge : Char} [IsEdge edge]

theorem prefix_append_edge {mark : List Char} (h : ∀ c ∈ mark, c ∈ "\"'/*]=@$".toList)
    (p x : List Char) : mark <+: p ++ edge :: x ↔ mark <+: p := by
  constructor
  · exact fun hprefix => prefix_of_prefix_append_cons hprefix fun hmem => edge_ne (h _ hmem) rfl
  · exact fun hprefix => hprefix.trans (List.prefix_append _ _)

variable {edge' : Char} [IsEdge edge']

theorem readComment_append (st : State) (text p x y : List Char) :
    st.readComment (p ++ edge :: x) text = st.readComment (p ++ edge' :: y) text := by
  simp (disch := decide) only [readComment_eq, prefix_append_edge]

/-- So what a comment does to the state does not depend on it. -/
theorem readComment_read (st : State) {p q : List Char} (hq : q.length ≤ p.length)
    (x y : List Char) :
    st.readComment (p ++ edge :: x)
        ((p ++ edge :: x).take ((p ++ edge :: x).length - (q ++ edge :: x).length)) =
      st.readComment (p ++ edge' :: y)
        ((p ++ edge' :: y).take ((p ++ edge' :: y).length - (q ++ edge' :: y).length)) := by
  rw [take_append_edge x hq, take_append_edge y hq]
  exact readComment_append st _ p x y

end Edge

/-- What is read here goes up to the end of the line. -/
def ReadsLine (st : State) (s : List Char) : Prop :=
  "//".toList <+: s ∨ s.head? = some '#' ∧ st.headerBlank = true

section Edge

variable {edge : Char} (edge' : Char) [IsEdge edge] [IsEdge edge']

/-- A character that starts neither a comment nor a literal. -/
theorem CodeStep.local {st st' : State} {c : Char} {p x after : List Char}
    (h : st.CodeStep c (p ++ edge :: x) st' after) (hlt : x.length < after.length) :
    ∃ q, after = q ++ edge :: x ∧
      ∀ y, (c = '\x7b' → st.opening = .property → allBlank q = true →
          atAssignment (edge' :: y) = false) →
        st.CodeStep c (p ++ edge' :: y) st' (q ++ edge' :: y) := by
  cases h with
  | attributes hblank hsection =>
      obtain ⟨q, hq, hread⟩ := local_readSection edge' _ _ hsection hlt
      exact ⟨q, hq, fun y _ => .attributes hblank (readSection_opens (hread y) _)⟩
  | openBrace hpass =>
      obtain ⟨q, hq, hread⟩ := local_pass edge' hpass hlt
      exact ⟨q, hq, fun y hy => .openBrace (hread y (hy rfl))⟩
  | semicolon => exact ⟨p, rfl, fun _ _ => .semicolon⟩
  | closeBrace hscopes => exact ⟨p, rfl, fun _ _ => .closeBrace hscopes⟩
  | blank hblank => exact ⟨p, rfl, fun _ _ => .blank hblank⟩
  | write hblank hsign hopen => exact ⟨p, rfl, fun _ _ => .write hblank hsign hopen⟩

theorem local_next {st st' : State} {c : Char} {p x after : List Char}
    (h : st.next c (p ++ edge :: x) = .ok (st', after)) (hlt : x.length < after.length)
    (hend : after.length = x.length + 1 → st.ReadsLine (c :: (p ++ edge :: x)) → edge = '\n' →
      edge' = '\n') :
    ∃ q, after = q ++ edge :: x ∧
      ∀ y, (c = '\x7b' → st.opening = .property → allBlank q = true →
          atAssignment (edge' :: y) = false) →
        st.next c (p ++ edge' :: y) = .ok (st', q ++ edge' :: y) := by
  cases next_eq_ok_iff.1 h with
  | comment hcomment =>
      have hlen := afterComment?_length hcomment
      obtain ⟨q, rfl, hread⟩ := local_afterComment? edge' (p := c :: p) hcomment hlt
        fun hlen hline => hend hlen (.inl hline)
      simp only [List.length_append, List.length_cons] at hlen
      have hq : q.length ≤ (c :: p).length := by
        rw [List.length_cons]
        omega
      refine ⟨q, rfl, fun y _ => (next_comment (hread y)).trans ?_⟩
      exact congrArg (fun st => Except.ok (st, q ++ edge' :: y)) (readComment_read st hq y x)
  | directive hc hblank =>
      obtain ⟨q, hq, hread⟩ := local_dropLine edge' rfl hlt
        fun hlen => hend hlen (.inr ⟨congrArg some hc, hblank⟩)
      refine ⟨q, hq, fun y _ => next_eq_ok_iff.2 ?_⟩
      rw [← hread y]
      exact .directive hc hblank
  | literal hliteral =>
      obtain ⟨q, hq, hread⟩ := local_afterLiteral? edge' (p := c :: p) hliteral hlt
      exact ⟨q, hq, fun y _ => next_eq_ok_iff.2 (.literal (hread y))⟩
  | code hcomment hash hliteral hstep =>
      obtain ⟨q, hq, hread⟩ := hstep.local edge' hlt
      exact ⟨q, hq, fun y hy => next_eq_ok_iff.2 (.code (afterComment?_append edge' hcomment y) hash
        (afterLiteral?_append edge' (p := c :: p) hliteral y) (hread y hy))⟩

end Edge

end State

/-! ## The bodies of a scan -/

/-- What follows each brace of an initializer that is passed over. -/
def initializerBodiesFrom (s : List Char) : List (List Char) :=
  match s with
  | [] => []
  | c :: rest =>
    match hl : afterLiteral? (c :: rest) with
    | some (.error _) => []
    | some (.ok after) =>
      have : after.length < rest.length + 1 := afterLiteral?_length hl
      initializerBodiesFrom after
    | none =>
      if c = ';' then []
      else if c = '\x7b' then
        match hb : afterBlock rest with
        | .error _ => [rest]
        | .ok after =>
          have : after.length < rest.length := afterBlock_length hb
          rest :: initializerBodiesFrom after
      else initializerBodiesFrom rest
termination_by s.length

def initializerBodies (s : List Char) : List (List Char) :=
  if atAssignment s then initializerBodiesFrom s else []

/-- What follows each brace that is passed over when a brace has been read. -/
def Opening.bodies (opening : Opening) (s : List Char) : List (List Char) :=
  match opening with
  | .scope => []
  | .body => [s]
  | .property =>
    match afterBlock s with
    | .error _ => [s]
    | .ok after => s :: initializerBodies after

def State.bodiesAt (st : State) (c : Char) (rest : List Char) : List (List Char) :=
  if c = '\x7b' then st.opening.bodies rest else []

theorem State.mem_bodiesAt {st : State} {c : Char} {rest x : List Char} :
    x ∈ st.bodiesAt c rest ↔ c = '\x7b' ∧ x ∈ st.opening.bodies rest := by
  unfold bodiesAt
  split <;> simp_all

/-- What follows each brace that a scan passes over, in the order in which it comes to
them. -/
def bodies (st : State) (s : List Char) : List (List Char) :=
  match s with
  | [] => []
  | c :: rest =>
    match h : st.next c rest with
    | .error _ => st.bodiesAt c rest
    | .ok (st', after) =>
      have := State.next_length h
      st.bodiesAt c rest ++ bodies st' after
termination_by s.length

/-- Reading character by character, a scan comes from one state and text to another. -/
inductive ComesTo : State → List Char → State → List Char → Prop
  | here {st : State} {s : List Char} : ComesTo st s st s
  | step {st st' last : State} {c : Char} {rest after s : List Char} :
      st.next c rest = .ok (st', after) → ComesTo st' after last s →
      ComesTo st (c :: rest) last s

theorem mem_bodies_iff {st : State} {s x : List Char} :
    x ∈ bodies st s ↔
      ∃ last rest, ComesTo st s last ('\x7b' :: rest) ∧ x ∈ last.opening.bodies rest := by
  fun_induction bodies st s with
  | case1 =>
      constructor
      · rintro ⟨⟩
      · rintro ⟨_, _, ⟨⟩, _⟩
  | case2 st c rest e hnext =>
      rw [State.mem_bodiesAt]
      constructor
      · rintro ⟨rfl, h⟩
        exact ⟨st, rest, .here, h⟩
      · rintro ⟨last, rest', hcomes, h⟩
        cases hcomes with
        | here => exact ⟨rfl, h⟩
        | step hnext' => cases hnext.symm.trans hnext'
  | case3 st c rest st' after hnext hlen ih =>
      rw [List.mem_append, State.mem_bodiesAt, ih]
      constructor
      · rintro (⟨rfl, h⟩ | ⟨last, rest', hcomes, h⟩)
        · exact ⟨st, rest, .here, h⟩
        · exact ⟨last, rest', .step hnext hcomes, h⟩
      · rintro ⟨last, rest', hcomes, h⟩
        cases hcomes with
        | here => exact .inl ⟨rfl, h⟩
        | step hnext' hcomes =>
            cases hnext.symm.trans hnext'
            exact .inr ⟨last, rest', hcomes, h⟩

/-- What stands behind a brace is passed over unless its header opens a scope. -/
theorem mem_bodies_of_comesTo {st last : State} {s rest : List Char}
    (hcomes : ComesTo st s last ('\x7b' :: rest))
    (hheader : ¬State.OpensScope (trim last.statement.header)) : rest ∈ bodies st s := by
  refine mem_bodies_iff.2 ⟨last, rest, hcomes, ?_⟩
  unfold Opening.bodies
  cases hopening : last.opening with
  | scope => exact absurd (State.opening_eq_scope.1 hopening) hheader
  | body => exact List.mem_singleton_self _
  | property =>
      dsimp only
      split
      · exact List.mem_singleton_self _
      · exact List.mem_cons_self

theorem agree_afterInitializerFrom_opens (opens opens' s : List Char) :
    Agree (afterInitializerFrom opens s) (afterInitializerFrom opens' s) := by
  intro rest
  constructor
  · exact fun h => afterInitializerFrom_opens h opens'
  · exact fun h => afterInitializerFrom_opens h opens

section Replace

variable {x y after : List Char}

theorem length_of_mem_initializerBodiesFrom {s : List Char} (h : x ∈ initializerBodiesFrom s) :
    x.length < s.length := by
  fun_induction initializerBodiesFrom s with
  | case1 => cases h
  | case2 => cases h
  | case3 _ _ _ _ hlt ih => exact Nat.lt_trans (ih h) hlt
  | case4 => cases h
  | case5 =>
      cases List.mem_singleton.1 h
      exact Nat.lt_succ_self _
  | case6 _ _ _ hlt _ _ ih =>
      rcases List.mem_cons.1 h with rfl | h
      · exact Nat.lt_succ_self _
      · exact Nat.lt_succ_of_lt (Nat.lt_trans (ih h) hlt)
  | case7 _ _ _ _ _ ih => exact Nat.lt_succ_of_lt (ih h)

theorem length_of_mem_initializerBodies {s : List Char} (h : x ∈ initializerBodies s) :
    x.length < s.length := by
  unfold initializerBodies at h
  split at h
  · exact length_of_mem_initializerBodiesFrom h
  · cases h

/-- An initializer with a brace in it starts with a sign. -/
theorem mem_initializerBodies_brace {p : List Char} (h : x ∈ initializerBodies (p ++ '\x7b' :: x)) :
    allBlank p = false ∧ atAssignment (p ++ '\x7b' :: x) = true ∧
      x ∈ initializerBodiesFrom (p ++ '\x7b' :: x) := by
  unfold initializerBodies at h
  split at h
  · rename_i hassign
    refine ⟨Bool.eq_false_iff.2 fun hp => ?_, hassign, h⟩
    rw [atAssignment_blank hp, atAssignment_brace] at hassign
    cases hassign
  · cases h

/-- A body that stands further on is one in the initializer of a property. -/
theorem Opening.mem_bodies_brace {opening : Opening} {p : List Char}
    (h : x ∈ opening.bodies (p ++ '\x7b' :: x)) :
    opening = .property ∧ ∃ mid, afterBlock (p ++ '\x7b' :: x) = .ok mid ∧
      x ∈ initializerBodies mid := by
  have hself : x ≠ p ++ '\x7b' :: x := by
    intro e
    have hlen := congrArg List.length e
    simp only [List.length_append, List.length_cons] at hlen
    omega
  unfold Opening.bodies at h
  cases opening with
  | scope => cases h
  | body => exact absurd (List.mem_singleton.1 h) hself
  | property =>
      cases hblock : afterBlock (p ++ '\x7b' :: x) with
      | error u =>
          simp only [hblock] at h
          exact absurd (List.mem_singleton.1 h) hself
      | ok mid =>
          simp only [hblock] at h
          exact ⟨rfl, mid, rfl, (List.mem_cons.1 h).resolve_left hself⟩

theorem length_of_mem_bodiesAt {st : State} {c : Char} {s : List Char} (h : x ∈ st.bodiesAt c s) :
    x.length < (c :: s).length := by
  apply Nat.lt_succ_of_le
  obtain ⟨-, h⟩ := State.mem_bodiesAt.1 h
  unfold Opening.bodies at h
  split at h
  · cases h
  · cases List.mem_singleton.1 h
    exact Nat.le_refl _
  · split at h
    · cases List.mem_singleton.1 h
      exact Nat.le_refl _
    · rename_i hblock
      rcases List.mem_cons.1 h with rfl | h
      · exact Nat.le_refl _
      · exact Nat.le_of_lt
          (Nat.lt_trans (length_of_mem_initializerBodies h) (afterBlock_length hblock))

theorem length_of_mem_bodies {st : State} {s : List Char} (h : x ∈ bodies st s) :
    x.length < s.length := by
  fun_induction bodies st s with
  | case1 => cases h
  | case2 => exact length_of_mem_bodiesAt h
  | case3 _ _ _ _ _ _ hlen ih =>
      rcases List.mem_append.1 h with h | h
      · exact length_of_mem_bodiesAt h
      · exact Nat.lt_succ_of_le (Nat.le_of_lt (Nat.lt_of_lt_of_le (ih h) hlen))

theorem agree_scanFrom_brace {st : State} {s t : List Char}
    (h : Agree (st.opening.pass s) (st.opening.pass t)) :
    Agree (scanFrom st ('\x7b' :: s)) (scanFrom st ('\x7b' :: t)) := by
  rw [scanFrom_cons, scanFrom_cons, State.next_brace, State.next_brace, State.openBrace_eq,
    State.openBrace_eq]
  exact ((h.map _).mapError _ _).bind _

variable (hx : afterBlock x = .ok after) (hy : afterBlock y = .ok after)
include hx hy

theorem agree_afterInitializerFrom {p : List Char} (opens opens' : List Char)
    (h : x ∈ initializerBodiesFrom (p ++ '\x7b' :: x)) :
    Agree (afterInitializerFrom opens (p ++ '\x7b' :: x))
      (afterInitializerFrom opens' (p ++ '\x7b' :: y)) := by
  generalize hs : p ++ '\x7b' :: x = s at h
  fun_induction initializerBodiesFrom s generalizing p with
  | case1 => cases h
  | case2 => cases h
  | case3 _ _ _ hliteral _ ih =>
      rw [← hs] at hliteral ⊢
      obtain ⟨q, rfl, hread⟩ :=
        local_afterLiteral? '\x7b' hliteral (length_of_mem_initializerBodiesFrom h)
      rw [afterInitializerFrom_literal hliteral, afterInitializerFrom_literal (hread y)]
      exact ih rfl h
  | case4 => cases h
  | case5 _ _ hblock =>
      cases List.mem_singleton.1 h
      cases hblock.symm.trans hx
  | case6 t mid hblock hlt _ _ ih =>
      rcases List.mem_cons.1 h with rfl | hmem
      · cases List.append_left_eq_self.1 hs
        cases hblock.symm.trans hx
        rw [List.nil_append, afterInitializerFrom_block hx, afterInitializerFrom_block hy]
        exact agree_afterInitializerFrom_opens _ _ _
      · have hmid := length_of_mem_initializerBodiesFrom hmem
        obtain ⟨p, rfl, rfl⟩ := exists_of_append_eq (u := ['\x7b']) hs (Nat.lt_trans hmid hlt)
        obtain ⟨q, rfl, hread⟩ := local_afterBlock '\x7b' hblock hmid
        rw [List.append_assoc, List.singleton_append, afterInitializerFrom_block hblock,
          afterInitializerFrom_block (hread y)]
        exact ih rfl hmem
  | case7 c t hliteral hend hopen ih =>
      have ht := length_of_mem_initializerBodiesFrom h
      obtain ⟨q, rfl, rfl⟩ := exists_of_append_eq (u := [c]) hs ht
      have hliteral' := afterLiteral?_append '\x7b' (p := c :: q) hliteral y
      rw [List.cons_append] at hliteral'
      rw [List.append_assoc, List.singleton_append, afterInitializerFrom_code hliteral,
        afterInitializerFrom_code hliteral', if_neg hend, if_neg hopen, if_neg hend, if_neg hopen]
      exact ih rfl h

theorem agree_afterInitializer {p : List Char} (h : x ∈ initializerBodies (p ++ '\x7b' :: x)) :
    Agree (afterInitializer (p ++ '\x7b' :: x)) (afterInitializer (p ++ '\x7b' :: y)) := by
  obtain ⟨hp, hassign, hmem⟩ := mem_initializerBodies_brace h
  have hassign' := hassign
  rw [atAssignment_append '\x7b' hp x y] at hassign'
  rw [afterInitializer, afterInitializer, if_pos hassign, if_pos hassign']
  exact agree_afterInitializerFrom hx hy _ _ hmem

/-- The brace that has been read is itself one of those passed over. -/
theorem agree_pass_self {opening : Opening} (h : opening ≠ .scope) :
    Agree (opening.pass x) (opening.pass y) := by
  intro rest
  cases opening with
  | scope => exact absurd rfl h
  | body => simp only [Opening.pass, hx, hy]
  | property => simp only [Opening.pass, hx, hy]

/-- The brace passed over stands further on. -/
theorem agree_pass {p : List Char} {opening : Opening}
    (h : x ∈ opening.bodies (p ++ '\x7b' :: x)) :
    Agree (opening.pass (p ++ '\x7b' :: x)) (opening.pass (p ++ '\x7b' :: y)) := by
  obtain ⟨rfl, mid, hblock, hmem⟩ := Opening.mem_bodies_brace h
  obtain ⟨q, rfl, hread⟩ := local_afterBlock '\x7b' hblock (length_of_mem_initializerBodies hmem)
  simp only [Opening.pass, hblock, hread y]
  exact agree_afterInitializer hx hy hmem

theorem agree_scanFrom_here {p s : List Char} {st : State} {c : Char} (h : x ∈ st.bodiesAt c s)
    (hs : p ++ '\x7b' :: x = c :: s) :
    Agree (scanFrom st (c :: s)) (scanFrom st (p ++ '\x7b' :: y)) := by
  obtain ⟨rfl, hbodies⟩ := State.mem_bodiesAt.1 h
  cases p with
  | nil =>
      cases hs
      refine agree_scanFrom_brace (agree_pass_self hx hy fun hscope => ?_)
      rw [hscope] at hbodies
      cases hbodies
  | cons c p =>
      cases hs
      exact agree_scanFrom_brace (agree_pass hx hy hbodies)

theorem agree_scanFrom {p : List Char} {st : State} (h : x ∈ bodies st (p ++ '\x7b' :: x)) :
    Agree (scanFrom st (p ++ '\x7b' :: x)) (scanFrom st (p ++ '\x7b' :: y)) := by
  generalize hs : p ++ '\x7b' :: x = s at h
  fun_induction bodies st s generalizing p with
  | case1 => cases h
  | case2 => exact agree_scanFrom_here hx hy h hs
  | case3 st c t st' mid hnext hlen ih =>
      rcases List.mem_append.1 h with hhere | hlater
      · exact agree_scanFrom_here hx hy hhere hs
      · have hmid := length_of_mem_bodies hlater
        have ht := Nat.lt_of_lt_of_le hmid hlen
        obtain ⟨p, rfl, rfl⟩ := exists_of_append_eq (u := [c]) hs ht
        obtain ⟨q, rfl, hread⟩ := State.local_next '\x7b' hnext hmid fun _ _ h => h
        rw [List.append_assoc, List.singleton_append, scanFrom_cons, scanFrom_cons, hnext,
          hread y fun _ _ _ => atAssignment_brace y]
        exact ih rfl hlater

end Replace

/-- A closed text ends at its brace.  What stands behind a brace whose header opens no scope is
passed over, as it is behind that of a method, a property or an enum, and any text passed over
may be replaced by a closed one. -/
theorem scan_replace_body :
    (∀ body : List Char, LexicallyClosed body →
      ∀ r : List Char, afterBlock (body ++ '\x7d' :: r) = .ok r) ∧
    (∀ (source rest : List Char) (st : State), ComesTo {} source st ('\x7b' :: rest) →
      ¬State.OpensScope (trim st.statement.header) → rest ∈ bodies {} source) ∧
    (∀ (source rest : List Char) (st : State), ComesTo {} source st ('\x7b' :: rest) →
      State.MemberHeader (trim st.statement.header) → rest ∈ bodies {} source) ∧
    ∀ before body body' after : List Char,
      body ++ '\x7d' :: after ∈ bodies {} (before ++ '\x7b' :: (body ++ '\x7d' :: after)) →
      afterBlock (body ++ '\x7d' :: after) = .ok after → LexicallyClosed body' →
      ∀ ds : List Declaration,
        scan (String.ofList (before ++ '\x7b' :: (body ++ '\x7d' :: after))) = .ok ds ↔
          scan (String.ofList (before ++ '\x7b' :: (body' ++ '\x7d' :: after))) = .ok ds := by
  refine ⟨fun body h r => afterBlock_closed h r,
    fun source rest st hcomes hheader => mem_bodies_of_comesTo hcomes hheader,
    fun source rest st hcomes hmember => mem_bodies_of_comesTo hcomes hmember.not_opensScope, ?_⟩
  intro before body body' after hmem hbody hbody' ds
  have hagree := agree_scanFrom hbody (afterBlock_closed hbody' after) hmem
  rw [scan, scan, String.toList_ofList, String.toList_ofList]
  exact hagree.mapError _ _ ds

/-- A property with an initializer, and a method behind it. -/
def initializerFront : List Char := "class A \x7b\nint[] P \x7b get; \x7d = F(new[] ".toList

def initializerBehind : List Char := ");\nvoid M() \x7b \x7d\n\x7d\n".toList

/-- Braces and keywords in a literal, in a comment and as code. -/
def loudBody : List Char :=
  '\x7b' :: (" return ".toList ++ ("\"\x7d\"".toList ++ "; ".toList) ++
    '\x7d' :: "// class B \x7b\n".toList)

theorem closed_loudBody : LexicallyClosed loudBody := by
  have hquoted : Quoted '"' ['\x7d'] := .plain (by decide) (by decide) (by decide) .nil
  have hliteral : StringLiteral "\"\x7d\"".toList :=
    @StringLiteral.regular [] _ (by decide) hquoted
  refine .braces ?_ (.lineComment (t := " class B \x7b".toList) (by decide) .nil)
  exact closed_plain rfl (.string hliteral (stops_cons rfl _) (closed_run rfl))

/-- In front of the brace of a method. -/
def methodFront : State := (({} : State).write ['M']).write "()".toList

theorem memberHeader_methodFront : State.MemberHeader (trim methodFront.statement.header) := by
  have htrim : trim methodFront.statement.header = ['M', '(', ')'] := by decide +kernel
  have hphrase : ∀ banned, ['M'] ∉ banned → Phrase banned headerMarks ['M', '(', ')'] := by
    intro banned hfree
    refine .word (w := ['M']) ⟨rfl, by decide⟩ hfree (stops_cons rfl _) ?_
    exact .brackets (t := []) (by decide) (by decide) .nil .nil
  rw [htrim]
  exact .member ⟨hphrase [] nofun, rfl, ['M', '('], ')', rfl, rfl⟩ (hphrase reserved (by decide))

theorem scan_replace_body_initializer :
    ComesTo {} "M()\x7b \x7d".toList methodFront "\x7b \x7d".toList ∧
      ¬State.OpensScope (trim methodFront.statement.header) ∧
      State.MemberHeader (trim methodFront.statement.header) ∧
      " \x7d".toList ∈ bodies {} "M()\x7b \x7d".toList ∧
      " 1, 2 ".toList ++ '\x7d' :: initializerBehind ∈ bodies {}
        (initializerFront ++ '\x7b' :: (" 1, 2 ".toList ++ '\x7d' :: initializerBehind)) ∧
      LexicallyClosed " 1, 2 ".toList ∧ LexicallyClosed loudBody ∧
      ∀ ds : List Declaration,
        scan (String.ofList (initializerFront ++
            '\x7b' :: (" 1, 2 ".toList ++ '\x7d' :: initializerBehind))) = .ok ds ↔
          scan (String.ofList (initializerFront ++
            '\x7b' :: (loudBody ++ '\x7d' :: initializerBehind))) = .ok ds := by
  have hcomes : ComesTo {} "M()\x7b \x7d".toList methodFront "\x7b \x7d".toList :=
    .step rfl (.step rfl (.step rfl .here))
  have hheader : ¬State.OpensScope (trim methodFront.statement.header) := by decide +kernel
  have hmem : " 1, 2 ".toList ++ '\x7d' :: initializerBehind ∈ bodies {} (initializerFront ++
      '\x7b' :: (" 1, 2 ".toList ++ '\x7d' :: initializerBehind)) := by decide +kernel
  have hclosed : LexicallyClosed " 1, 2 ".toList := closed_run rfl
  exact ⟨hcomes, hheader, memberHeader_methodFront,
    scan_replace_body.2.2.1 _ _ _ hcomes memberHeader_methodFront, hmem, hclosed,
    closed_loudBody, scan_replace_body.2.2.2 _ _ _ _ hmem (scan_replace_body.1 _ hclosed _)
      closed_loudBody⟩

/-! ## Initializers that are not passed over -/

/-- An initializer among the arguments of an attribute. -/
def attributeSource (body : List Char) : List Char :=
  "[A(new[] ".toList ++ '\x7b' :: (body ++ '\x7d' :: ")]\nclass C \x7b \x7d\n".toList)

/-- An initializer among the arguments to a base type. -/
def baseSource (body : List Char) : List Char :=
  "class C() : B(new[] ".toList ++ '\x7b' :: (body ++ '\x7d' :: ") \x7b \x7d\n".toList)

/-- The arguments of an attribute are recorded as they are written, and the first brace after
the header of a type opens the type. -/
theorem scan_recordedInitializers :
    LexicallyClosed " 1 ".toList ∧ LexicallyClosed " int x; ".toList ∧
      scan (String.ofList (attributeSource " 1 ".toList)) =
        .ok [{ names := ["C"], kind := .classType,
               attributes := [⟨"A", [("", "new[] \x7b 1 \x7d")]⟩] }] ∧
      scan (String.ofList (attributeSource " int x; ".toList)) =
        .ok [{ names := ["C"], kind := .classType,
               attributes := [⟨"A", [("", "new[] \x7b int x; \x7d")]⟩] }] ∧
      scan (String.ofList (baseSource " 1 ".toList)) =
        .ok [{ names := ["C"], kind := .classType, baseTypes := ["B(new[]"] }] ∧
      scan (String.ofList (baseSource " int x; ".toList)) =
        .ok [{ names := ["C"], kind := .classType, baseTypes := ["B(new[]"] },
             { names := ["x"], kind := .field, parent := some 0 }] :=
  ⟨closed_run rfl, closed_run rfl, scan_eq_ok (by decide +kernel), scan_eq_ok (by decide +kernel),
    scan_eq_ok (by decide +kernel), scan_eq_ok (by decide +kernel)⟩

end Declaration
end DocPages
