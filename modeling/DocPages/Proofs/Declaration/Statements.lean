/-
The statement that a scan is in, and the declaration that it makes.

Two runs that differ in what waits for a declaration differ in this declaration alone:
`scanFrom_related`.
-/
import DocPages.Proofs.Declaration.Acts

namespace DocPages
namespace Declaration

open Text

/-! ## The declaration that a statement makes -/

/-- The statement that is being read makes this declaration when it ends. -/
inductive Makes : State → List Char → Declaration → Prop
  | now {st st' : State} {c : Char} {rest after : List Char} {d : Declaration} :
      st.next c rest = .ok (st', after) → st.EndsAt c →
      st'.declarations = st.declarations ++ [d] → Makes st (c :: rest) d
  | later {st st' : State} {c : Char} {rest after : List Char} {d : Declaration} :
      st.next c rest = .ok (st', after) → ¬st.EndsAt c → Makes st' after d →
      Makes st (c :: rest) d

theorem not_makes_nil {st : State} {d : Declaration} : ¬Makes st [] d := nofun

section Step

variable {st st' : State} {c : Char} {rest after : List Char}
variable (hnext : st.next c rest = .ok (st', after))
include hnext

theorem makes_goes {d : Declaration} (hends : ¬st.EndsAt c) :
    Makes st (c :: rest) d ↔ Makes st' after d := by
  constructor
  · intro h
    cases h with
    | now _ hend _ => exact absurd hend hends
    | later hnext' _ hlater =>
        cases hnext.symm.trans hnext'
        exact hlater
  · exact .later hnext hends

theorem makes_ends {d : Declaration} (hends : st.EndsAt c) :
    Makes st (c :: rest) d ↔ st'.declarations = st.declarations ++ [d] := by
  constructor
  · intro h
    cases h with
    | now hnext' _ hd =>
        cases hnext.symm.trans hnext'
        exact hd
    | later _ hgoes _ => exact absurd hends hgoes
  · exact .now hnext hends

end Step

theorem Makes.unique {st : State} {s : List Char} {d e : Declaration} (hd : Makes st s d)
    (he : Makes st s e) : d = e := by
  induction hd with
  | now hnext hends hd =>
      rw [makes_ends hnext hends, hd, List.append_cancel_left_eq, List.singleton_inj] at he
      exact he
  | later hnext hgoes _ ih => exact ih ((makes_goes hnext hgoes).1 he)

/-! ## Two runs -/

/-- A relation between states that lasts while a statement goes on, and in which it ends in the
same way. -/
structure Carried (R : State → State → Prop) : Prop where
  alike {st other : State} : R st other → st.EndsAlike other
  lineUsed {st other : State} : R st other → other.lineUsed = st.lineUsed
  run {act : Act} {st other : State} :
    act.Fits st → ¬act.Ends st → R st other → R (act.run st) (act.run other)

theorem Carried.symm {R : State → State → Prop} (hR : Carried R) :
    Carried fun st other => R other st where
  alike h := ⟨⟨(hR.alike h).header.symm, (hR.alike h).scopes.symm⟩,
    (hR.alike h).fileNamespace.symm, (hR.alike h).count.symm⟩
  lineUsed h := (hR.lineUsed h).symm
  run {act _ _} hfits hgoes h :=
    hR.run (((hR.alike h).fits act).1 hfits) (mt ((hR.alike h).ends act).2 hgoes) h

/-- Both runs make their declaration at the same end of the statement, or neither makes one, and
everything behind it is the same. -/
def RunAlike (R : State → State → Prop) (st other : State) (s : List Char)
    (ds : List Declaration) : Prop :=
  (∃ last last' names kind bases more, R last last' ∧ Makes st s (last.made names kind bases) ∧
    Makes other s (last'.made names kind bases) ∧
    ds = st.declarations ++ last.made names kind bases :: more ∧
    scanFrom other s = .ok (other.declarations ++ last'.made names kind bases :: more)) ∨
  (∀ d, ¬Makes st s d) ∧ ∃ more, ds = st.declarations ++ more ∧
    scanFrom other s = .ok (other.declarations ++ more)

section Carried

variable {R : State → State → Prop} (hR : Carried R) {st other : State} (hrel : R st other)
  {c : Char} {rest after : List Char} {ds : List Declaration}
include hR hrel

theorem runAlike_nil (hscopes : st.scopes = []) : RunAlike R st other [] st.declarations := by
  refine .inr ⟨fun _ => not_makes_nil, [], (List.append_nil _).symm, ?_⟩
  rw [scanFrom, (hR.alike hrel).scopes, hscopes, List.append_nil]
  rfl

/-- At an end both make the declaration of their own header, and are the same from then on. -/
theorem runAlike_ends {act : Act} (hend : act.Ends st) (hends : st.EndsAt c)
    (hnext : st.next c rest = .ok (act.run st, after))
    (hnext' : other.next c rest = .ok (act.run other, after))
    (hrest : scanFrom (act.run st) after = .ok ds) : RunAlike R st other (c :: rest) ds := by
  have halike := hR.alike hrel
  have hends' : other.EndsAt c := by rwa [State.EndsAt, halike.header, ← State.EndsAt]
  rw [RunAlike, scanFrom_next hnext']
  have hin := act.run_ends hend halike
  generalize act.run other = last at hin hnext'
  generalize act.run st = mid at hin hnext hrest
  cases hin with
  | nothing hnone hused =>
      rw [hused (hR.lineUsed hrel)]
      obtain ⟨more, hds, honto⟩ := scanFrom_onto hrest
      rw [hnone] at hds
      refine .inr ⟨fun d => ?_, more, hds, honto _ (halike.count.trans (by rw [hnone]))⟩
      rw [makes_ends hnext hends, hnone]
      exact fun hd => absurd (congrArg List.length hd) (by simp)
  | declared names kind bases hsome hused =>
      rw [hused (hR.lineUsed hrel)] at hnext' ⊢
      obtain ⟨more, rfl, honto⟩ := scanFrom_onto hrest
      refine .inl ⟨st, other, names, kind, bases, more, hrel, .now hnext hends hsome,
        .now hnext' hends' rfl, ?_, ?_⟩
      · rw [hsome, List.append_assoc, List.singleton_append]
      · have hcount : (other.declarations ++ [other.made names kind bases]).length =
            mid.declarations.length := by
          rw [hsome, List.length_append, List.length_append, halike.count]
          rfl
        exact (honto _ hcount).trans (by rw [List.append_assoc, List.singleton_append])

theorem runAlike_goes {act : Act} (hgoes : ¬act.Ends st) (hends : ¬st.EndsAt c)
    (hnext : st.next c rest = .ok (act.run st, after))
    (hnext' : other.next c rest = .ok (act.run other, after))
    (h : RunAlike R (act.run st) (act.run other) after ds) : RunAlike R st other (c :: rest) ds := by
  have halike := hR.alike hrel
  have hends' : ¬other.EndsAt c := by rwa [State.EndsAt, halike.header, ← State.EndsAt]
  rw [RunAlike, Act.declarations_run hgoes,
    Act.declarations_run (mt (halike.ends act).1 hgoes)] at h
  rw [RunAlike, scanFrom_next hnext']
  simpa only [makes_goes hnext hends, makes_goes hnext' hends'] using h

end Carried

/-- Two runs that are so related make their declaration at the same end of the statement, and
everything behind it is the same. -/
theorem scanFrom_related {R : State → State → Prop} (hR : Carried R) {st other : State}
    (hrel : R st other) {s : List Char} {ds : List Declaration} (h : scanFrom st s = .ok ds) :
    RunAlike R st other s ds := by
  refine (scanFrom_induction (motive := fun st s => scanFrom st s = .ok ds ∧
    ∀ other, R st other → RunAlike R st other s ds) ?_ ?_ h).2 other hrel
  · intro st hst
    obtain ⟨rfl, hscopes⟩ := Prod.mk.inj hst
    refine ⟨?_, fun other hrel => runAlike_nil hR hrel hscopes⟩
    rw [scanFrom, hscopes]
    rfl
  · rintro st c rest st' after hnext ⟨hrest, ih⟩
    refine ⟨(scanFrom_next hnext).trans hrest, fun other hrel => ?_⟩
    obtain ⟨act, rfl, hfits, hends, hother⟩ := State.next_act hnext
    have hnext' := hother other (hR.alike hrel).toAlike
    by_cases hend : act.Ends st
    · exact runAlike_ends hR hrel hend (hends.1 hend) hnext hnext' hrest
    · exact runAlike_goes hR hrel hend (mt hends.2 hend) hnext hnext' (ih _ (hR.run hfits hend hrel))

/-! ## What a scan comes to -/

theorem ComesTo.length_le {st last : State} {s r : List Char} (h : ComesTo st s last r) :
    r.length ≤ s.length := by
  induction h with
  | here => exact Nat.le_refl _
  | step hnext _ ih => exact Nat.le_succ_of_le (Nat.le_trans ih (State.next_length hnext))

/-- The body of a property ends its statement. -/
theorem header_braced_property {st : State} (h : st.opening = .property) :
    st.braced.statement.header = [] := by
  have hends : Act.openBrace.Ends st := by
    unfold State.opening at h
    dsimp only at h
    split at h
    · cases h
    · rename_i hassign
      exact Option.not_isSome_iff_eq_none.1 hassign
  exact congrArg Statement.header (Act.statement_run hends)

theorem header_space {st : State} (h : st.statement.header = []) :
    st.space.statement.header = [] := by
  rw [State.space, h]
  exact h

theorem header_blank {st : State} (h : st.statement.header = []) (c : Char) :
    (st.blank c).statement.header = [] := by
  rw [State.blank_eq]
  split
  · refine header_space ?_
    unfold State.endLine
    split <;> exact h
  · exact header_space h

/-- A header does not start with blanks. -/
theorem ComesTo.header_blank {edge : Char} {st last : State} {p q x : List Char}
    (h : ComesTo st (p ++ edge :: x) last (q ++ edge :: x)) (hp : allBlank p = true)
    (hst : st.statement.header = []) : last.statement.header = [] := by
  generalize hr : q ++ edge :: x = r at h
  induction p generalizing st with
  | nil =>
      cases h with
      | here => exact hst
      | step hnext hcomes =>
          have hlen := hcomes.length_le
          have hrest := State.next_length hnext
          rw [← hr, List.length_append, List.length_cons] at hlen
          omega
  | cons c p ih =>
      rw [allBlank, List.all_cons, Bool.and_eq_true] at hp
      cases h with
      | here => exact hst
      | step hnext hcomes =>
          cases hnext.symm.trans (State.next_eq_ok_iff.2 (st.step_blank hp.1 _))
          exact ih hp.2 (Declaration.header_blank hst c) hcomes

/-- A comment or a directive ends, with its line, where this text starts. -/
def EndsLine (st : State) (s r : List Char) : Prop :=
  ∃ mid mid' c rest, ComesTo st s mid (c :: rest) ∧ mid.ReadsLine (c :: rest) ∧
    mid.next c rest = .ok (mid', r)

theorem EndsLine.step {st st' : State} {c : Char} {rest after r : List Char}
    (h : EndsLine st' after r) (hnext : st.next c rest = .ok (st', after)) :
    EndsLine st (c :: rest) r := by
  obtain ⟨mid, mid', d, s, hcomes, hreads, hlast⟩ := h
  exact ⟨mid, mid', d, s, .step hnext hcomes, hreads, hlast⟩

/-- The edge and what stands behind it do not matter for coming to a place in front of it, unless
a comment ends at the edge or an initializer starts there. -/
theorem ComesTo.replace {edge : Char} (edge' : Char) [IsEdge edge] [IsEdge edge'] {st last : State}
    {p q x y : List Char} (h : ComesTo st (p ++ edge :: x) last (q ++ edge :: x))
    (hassign : atAssignment (edge' :: y) = false ∨ last.statement.header ≠ [])
    (hend : q = [] → edge = '\n' → edge' ≠ '\n' → ¬EndsLine st (p ++ edge :: x) (edge :: x)) :
    ComesTo st (p ++ edge' :: y) last (q ++ edge' :: y) := by
  generalize hs : p ++ edge :: x = s at h hend
  generalize hr : q ++ edge :: x = r at h
  induction h generalizing p with
  | here =>
      subst hr
      rw [List.append_cancel_right_eq] at hs
      rw [hs]
      exact .here
  | @step st st' last c rest after r hnext hcomes ih =>
      subst hr
      have hlen := hcomes.length_le
      rw [List.length_append, List.length_cons] at hlen
      have hrest := State.next_length hnext
      obtain ⟨p, rfl, rfl⟩ := exists_of_append_eq (u := [c]) hs (by omega)
      obtain ⟨q', rfl, hread⟩ := State.local_next edge' hnext (by omega)
        fun hlast hreads hedge => by
          by_contra hother
          have hq : q = [] := List.eq_nil_of_length_eq_zero (by omega)
          have hafter : after = edge :: x := by
            subst hq
            cases hcomes with
            | here => rfl
            | step hnext' hcomes' =>
                have hlen' := hcomes'.length_le
                have hrest' := State.next_length hnext'
                simp only [List.nil_append, List.length_cons] at hlen' hlast
                omega
          exact hend hq hedge hother ⟨st, st', c, _, .here, hreads, hafter ▸ hnext⟩
      refine .step (hread y fun hbrace hopening hblank => ?_)
        (ih hassign rfl (fun hq hedge hother hends => hend hq hedge hother (hends.step hnext)) rfl)
      rcases hassign with hassign | hheader
      · exact hassign
      · -- Behind the body of a property there would be blanks only.
        subst hbrace
        have hbraced := header_braced_property hopening
        rw [← (State.next_brace_eq_ok.1 hnext).2] at hbraced
        exact absurd (hcomes.header_blank hblank hbraced) hheader

theorem scanFrom_comesTo {st last : State} {s r : List Char} (h : ComesTo st s last r) :
    scanFrom st s = scanFrom last r := by
  induction h with
  | here => rfl
  | step hnext _ ih =>
      rw [scanFrom_cons, hnext]
      exact ih

/-- Where a scan comes to in so many steps. -/
def walk : Nat → State → List Char → Option (State × List Char)
  | 0, st, s => some (st, s)
  | _ + 1, _, [] => none
  | n + 1, st, c :: rest =>
    match st.next c rest with
    | .error _ => none
    | .ok (st, after) => walk n st after

theorem comesTo_walk {n : Nat} {st last : State} {s r : List Char}
    (h : walk n st s = some (last, r)) : ComesTo st s last r := by
  fun_induction walk n st s with
  | case1 =>
      cases h
      exact .here
  | case2 => cases h
  | case3 => cases h
  | case4 _ _ _ _ _ _ hnext ih => exact .step hnext (ih h)

end Declaration
end DocPages
