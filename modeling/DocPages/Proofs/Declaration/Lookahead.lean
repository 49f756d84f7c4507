/-
Reading does not look past an opening brace or a blank.

Only the initializer of a property may start behind blanks, so that what is said of it asks that
none starts behind the edge.  And only the end of a line ends a comment, which another blank in
its place would not.
-/
import DocPages.Proofs.Declaration.Closed

namespace DocPages
namespace Declaration

open Text

/-- The characters that continue nothing that is read up to them. -/
class IsEdge (edge : Char) : Prop where
  brace_or_blank : edge = '\x7b' ∨ isBlank edge = true

instance : IsEdge '\x7b' := ⟨.inl rfl⟩

instance : IsEdge '\n' := ⟨.inr (by decide)⟩

theorem edge_ne {edge c : Char} [h : IsEdge edge] (hc : c ∈ "\"'/*]=@$".toList) : edge ≠ c := by
  have htable : ∀ d ∈ "\"'/*]=@$".toList, d ≠ '\x7b' ∧ isBlank d = false := by decide
  rintro rfl
  rcases h.brace_or_blank with hbrace | hblank
  · exact (htable edge hc).1 hbrace
  · rw [(htable edge hc).2] at hblank
    cases hblank

theorem edge_notMark (edge : Char) [IsEdge edge] : isStringMark edge = false := by
  have hat : edge ≠ '@' := edge_ne (by decide)
  have hdollar : edge ≠ '$' := edge_ne (by decide)
  simp [isStringMark, hat, hdollar]

theorem atAssignment_brace (s : List Char) : atAssignment ('\x7b' :: s) = false := by
  rw [atAssignment, trimStart_of_stops (stops_cons (by decide) s)]
  rfl

/-- No initializer starts at a brace. -/
theorem edge_blank {edge : Char} [h : IsEdge edge] {s : List Char}
    (hs : atAssignment (edge :: s) = true) : isBlank edge = true := by
  rcases h.brace_or_blank with rfl | hblank
  · rw [atAssignment_brace] at hs
    cases hs
  · exact hblank

/-- `R` is local if what it has read of a text up to an edge, or less, says nothing about
that edge and what follows it: there might as well be another edge. -/
def Local (edge edge' : Char) (R : List Char → List Char → Prop) : Prop :=
  ∀ ⦃p x rest : List Char⦄, R (p ++ edge :: x) rest → x.length < rest.length →
    ∃ q, rest = q ++ edge :: x ∧ ∀ y, R (p ++ edge' :: y) (q ++ edge' :: y)

/-! ## Runs and marks -/

variable {edge : Char} (edge' : Char)

/-- What is left of a text beyond `x` takes the edge in front of `x` along. -/
theorem exists_of_append_eq {p x u rest : List Char} (h : p ++ edge :: x = u ++ rest)
    (hlt : x.length < rest.length) : ∃ q, p = u ++ q ∧ rest = q ++ edge :: x := by
  rcases List.append_eq_append_iff.1 h with ⟨q, hu, hx⟩ | ⟨q, hp, hrest⟩
  · have hlen := congrArg List.length hx
    simp only [List.length_cons, List.length_append] at hlen
    cases q with
    | nil => exact ⟨[], by rw [hu, List.append_nil, List.append_nil], hx.symm⟩
    | cons c q =>
        simp only [List.length_cons] at hlen
        omega
  · exact ⟨q, hp, hrest⟩

/-- What has been read of a text up to an edge is the same whatever follows the edge. -/
theorem take_append_edge {p q : List Char} (x : List Char) (h : q.length ≤ p.length) :
    (p ++ edge :: x).take ((p ++ edge :: x).length - (q ++ edge :: x).length) =
      p.take (p.length - q.length) := by
  have hlen : (p ++ edge :: x).length - (q ++ edge :: x).length = p.length - q.length := by
    simp only [List.length_append]
    omega
  rw [hlen, List.take_append_of_le_length (by omega)]

section Class

variable (k : Char → Bool) (h : k edge = false)
include h

theorem takeWhile_append_edge (p x : List Char) :
    (p ++ edge :: x).takeWhile k = p.takeWhile k := by
  induction p with
  | nil => exact List.takeWhile_cons_of_neg (by simp [h])
  | cons c p ih =>
      rw [List.cons_append, List.takeWhile_cons, List.takeWhile_cons, ih]

theorem dropWhile_append_edge (p x : List Char) :
    (p ++ edge :: x).dropWhile k = p.dropWhile k ++ edge :: x := by
  induction p with
  | nil => exact List.dropWhile_cons_of_neg (by simp [h])
  | cons c p ih =>
      rw [List.cons_append, List.dropWhile_cons, List.dropWhile_cons, ih]
      split <;> rfl

end Class

theorem local_breakOn {mark : List Char} (hm : mark ≠ []) :
    Local edge edge' fun s rest => (breakOn mark s).map Prod.snd = some rest := by
  intro p x rest h hlt
  obtain ⟨⟨before, after⟩, hfirst, rfl⟩ := Option.map_eq_some_iff.1 h
  obtain ⟨hsplit, hleast⟩ := (breakOn_eq_some_iff hm).1 hfirst
  obtain ⟨q, rfl, hq⟩ := exists_of_append_eq hsplit hlt
  refine ⟨q, hq, fun y => ?_⟩
  have hfirst' : FirstAt mark (before ++ mark ++ q) before q := by
    refine ⟨rfl, fun b a hb => hleast b (a ++ edge :: x) ?_⟩
    rw [hb, List.append_assoc]
  exact Option.map_eq_some_iff.2
    ⟨_, (breakOn_eq_some_iff hm).2 (hfirst'.append_right (edge' :: y)), rfl⟩

theorem dropLine_append {line : List Char} (h : '\n' ∉ line) (rest : List Char) :
    dropLine (line ++ '\n' :: rest) = '\n' :: rest :=
  dropWhile_append_stops (fun _ hc => decide_eq_true fun e => h (e ▸ hc)) (stops_cons rfl rest)

/-- The line must not go on behind the other edge if it ends at the first. -/
theorem local_dropLine {p x rest : List Char} (h : dropLine (p ++ edge :: x) = rest)
    (hlt : x.length < rest.length)
    (hend : rest.length = x.length + 1 → edge = '\n' → edge' = '\n') :
    ∃ q, rest = q ++ edge :: x ∧ ∀ y, dropLine (p ++ edge' :: y) = q ++ edge' :: y := by
  obtain ⟨line, tail, rfl, hline, htail⟩ := exists_run (fun c => decide (c ≠ '\n')) p
  cases tail with
  | nil =>
      rw [List.append_nil] at h ⊢
      have hdrop : ∀ y, dropLine (line ++ '\n' :: y) = '\n' :: y := fun y =>
        dropWhile_append_stops hline (stops_cons rfl _)
      by_cases hnewline : edge = '\n'
      · subst hnewline
        rw [hdrop] at h
        subst h
        have hedge := hend rfl rfl
        subst hedge
        exact ⟨[], rfl, hdrop⟩
      · -- The line goes on behind the edge.
        have hshort := (List.dropWhile_suffix (fun c => decide (c ≠ '\n')) (l := x)).length_le
        have hdrop : dropLine (line ++ edge :: x) = dropLine x :=
          (List.dropWhile_append_of_pos hline).trans
            (List.dropWhile_cons_of_pos (decide_eq_true hnewline))
        rw [← h, hdrop] at hlt
        exact absurd hlt (Nat.not_lt.2 hshort)
  | cons c tail =>
      have hdrop : ∀ e y, dropLine (line ++ c :: tail ++ e :: y) = c :: tail ++ e :: y := by
        intro e y
        rw [List.append_assoc]
        exact dropWhile_append_stops hline (stops_cons (htail c rfl) _)
      exact ⟨c :: tail, by rw [← h, hdrop], hdrop edge'⟩

/-! ## Literals -/

/-- The text after the closing quote of a literal on one line, whatever its quote is. -/
def afterQuoted (quote : Char) : List Char → Option (List Char)
  | [] => none
  | '\\' :: _ :: rest => afterQuoted quote rest
  | c :: rest => if c = quote then some rest else if c = '\n' then none else afterQuoted quote rest

theorem afterPlainString_eq (s : List Char) : afterPlainString s = afterQuoted '"' s := by
  fun_induction afterPlainString s with
  | case1 => rfl
  | case2 => rfl
  | case3 => rfl
  | case4 _ _ ih => exact ih
  | case5 c rest hquote hline hescape ih =>
      rw [afterQuoted, if_neg hquote, if_neg hline, ih]
      exact hescape

theorem afterCharBody_eq (s : List Char) : afterCharBody s = afterQuoted '\'' s := by
  fun_induction afterCharBody s with
  | case1 => rfl
  | case2 => rfl
  | case3 => rfl
  | case4 _ _ ih => exact ih
  | case5 c rest hquote hline hescape ih =>
      rw [afterQuoted, if_neg hquote, if_neg hline, ih]
      exact hescape

theorem afterQuoted_length {quote : Char} {s rest : List Char}
    (h : afterQuoted quote s = some rest) : rest.length < s.length := by
  fun_induction afterQuoted quote s <;> simp_all <;> omega

theorem local_afterQuoted (quote : Char) :
    Local edge edge' fun s rest => afterQuoted quote s = some rest := by
  intro p x rest h hlt
  have hplain : ∀ {c : Char} {after : List Char}, x.length < after.length →
      (∀ d more, c = '\\' → after = d :: more → False) → c ≠ '\\' := by
    rintro c after hafter hescape rfl
    obtain ⟨d, more, hmore⟩ := List.exists_cons_of_length_pos (Nat.zero_lt_of_lt hafter)
    exact hescape d more rfl hmore
  generalize hs : p ++ edge :: x = s at h
  fun_induction afterQuoted quote s generalizing p with
  | case1 => cases h
  | case2 c after ih =>
      have hafter := Nat.lt_trans hlt (afterQuoted_length h)
      obtain ⟨q, rfl, hq⟩ := exists_of_append_eq (u := ['\\', c]) hs hafter
      obtain ⟨q', hq', hread⟩ := ih hq.symm h
      exact ⟨q', hq', hread⟩
  | case3 after hescape =>
      cases h
      obtain ⟨q, rfl, hq⟩ := exists_of_append_eq (u := [quote]) hs hlt
      refine ⟨q, hq, fun y => ?_⟩
      dsimp only
      rw [List.append_assoc, List.singleton_append, afterQuoted, if_pos rfl]
      exact fun _ _ e => absurd e (hplain hlt hescape)
  | case4 => cases h
  | case5 c after hescape hquote hline ih =>
      have hafter := Nat.lt_trans hlt (afterQuoted_length h)
      obtain ⟨q, rfl, hq⟩ := exists_of_append_eq (u := [c]) hs hafter
      obtain ⟨q', hq', hread⟩ := ih hq.symm h
      refine ⟨q', hq', fun y => ?_⟩
      dsimp only
      rw [List.append_assoc, List.singleton_append, afterQuoted, if_neg hquote, if_neg hline,
        hread y]
      exact fun _ _ e => absurd e (hplain hafter hescape)

/-- Nor must a comment up to the end of the line. -/
theorem local_afterComment? {p x rest : List Char}
    (h : afterComment? (p ++ edge :: x) = some (.ok rest)) (hlt : x.length < rest.length)
    (hend : rest.length = x.length + 1 → "//".toList <+: p ++ edge :: x → edge = '\n' →
      edge' = '\n') :
    ∃ q, rest = q ++ edge :: x ∧
      ∀ y, afterComment? (p ++ edge' :: y) = some (.ok (q ++ edge' :: y)) := by
  unfold afterComment? at h
  split at h
  · rename_i t hs
    have ht : rest.length ≤ t.length := by
      have hline : dropLine t = rest := by
        rw [hs] at h
        exact Except.ok.inj (Option.some.inj h)
      rw [← hline]
      exact (List.dropWhile_suffix _).length_le
    obtain ⟨q, rfl, -⟩ := exists_of_append_eq (u := ['/', '/']) hs (Nat.lt_of_lt_of_le hlt ht)
    obtain ⟨q', hq', hread⟩ := local_dropLine edge' (Except.ok.inj (Option.some.inj h)) hlt
      fun hlen => hend hlen ⟨q ++ edge :: x, rfl⟩
    exact ⟨q', hq', fun y => congrArg (fun r => some (Except.ok r)) (hread y)⟩
  · rename_i t hs
    rw [Option.some.injEq, afterBlockComment, restOr_ok] at h
    have ht : rest.length ≤ t.length := by
      obtain ⟨⟨before, after⟩, hcut, rfl⟩ := Option.map_eq_some_iff.1 h
      have hlen := congrArg List.length (breakOn_eq hcut)
      rw [hs] at hlen
      simp only [List.drop_succ_cons, List.drop_zero, List.length_append] at hlen ⊢
      omega
    obtain ⟨q, rfl, -⟩ := exists_of_append_eq (u := ['/', '*']) hs (Nat.lt_of_lt_of_le hlt ht)
    have hmark : "*/".toList ≠ [] := by decide
    obtain ⟨q', hq', hread⟩ := local_breakOn edge' hmark h hlt
    exact ⟨q', hq', fun y => congrArg some (restOr_ok.2 (hread y))⟩
  · cases h

section Edge

variable [IsEdge edge] [IsEdge edge']

omit [IsEdge edge] in
theorem local_afterVerbatim : Local edge edge' fun s rest => afterVerbatim s = some rest := by
  intro p x rest h hlt
  generalize hs : p ++ edge :: x = s at h
  fun_induction afterVerbatim s generalizing p with
  | case1 => cases h
  | case2 after ih =>
      have hafter := Nat.lt_trans hlt (afterVerbatim_length h)
      obtain ⟨q, rfl, hq⟩ := exists_of_append_eq (u := ['"', '"']) hs hafter
      obtain ⟨q', hq', hread⟩ := ih hq.symm h
      exact ⟨q', hq', hread⟩
  | case3 after hdouble =>
      cases h
      obtain ⟨q, rfl, hq⟩ := exists_of_append_eq (u := ['"']) hs hlt
      refine ⟨q, hq, fun y => ?_⟩
      dsimp only
      rw [List.append_assoc, List.singleton_append, afterVerbatim]
      intro more e
      cases q with
      | nil => exact edge_ne (by decide) (List.cons.inj e).1
      | cons c q =>
          obtain ⟨rfl, -⟩ := List.cons.inj e
          exact hdouble _ hq
  | case4 c after _ hquote ih =>
      have hafter := Nat.lt_trans hlt (afterVerbatim_length h)
      obtain ⟨q, rfl, hq⟩ := exists_of_append_eq (u := [c]) hs hafter
      obtain ⟨q', hq', hread⟩ := ih hq.symm h
      refine ⟨q', hq', fun y => ?_⟩
      dsimp only
      rw [List.append_assoc, List.singleton_append, afterVerbatim, hread y]
      · exact fun _ e => absurd e hquote
      · exact hquote

theorem atString_append (p x y : List Char) :
    atString (p ++ edge :: x) = atString (p ++ edge' :: y) := by
  have hhead : (some edge == some '"') = (some edge' == some '"') := by
    have hedge : edge ≠ '"' := edge_ne (by decide)
    have hedge' : edge' ≠ '"' := edge_ne (by decide)
    exact (beq_false_of_ne hedge).trans (beq_false_of_ne hedge').symm
  simp only [atString, takeWhile_append_edge isStringMark (edge_notMark edge),
    takeWhile_append_edge isStringMark (edge_notMark edge'),
    dropWhile_append_edge isStringMark (edge_notMark edge),
    dropWhile_append_edge isStringMark (edge_notMark edge')]
  cases p.dropWhile isStringMark with
  | nil => simp only [List.nil_append, List.head?_cons, hhead]
  | cons c body => rfl

theorem local_afterString : Local edge edge' fun s rest => afterString s = .ok rest := by
  intro p x rest h hlt
  have hquote : (edge == '"') = false := beq_false_of_ne (edge_ne (by decide))
  have hquote' : (edge' == '"') = false := beq_false_of_ne (edge_ne (by decide))
  simp only [afterString, restOr_ok, takeWhile_append_edge isStringMark (edge_notMark edge),
    takeWhile_append_edge isStringMark (edge_notMark edge'),
    dropWhile_append_edge isStringMark (edge_notMark edge),
    dropWhile_append_edge isStringMark (edge_notMark edge'),
    takeWhile_append_edge (· == '"') hquote, takeWhile_append_edge (· == '"') hquote'] at h ⊢
  generalize p.dropWhile isStringMark = body at *
  split at h
  · rename_i hfence
    have hdrop : ∀ e y, (body ++ e :: y).drop (body.takeWhile (· == '"')).length =
        body.drop (body.takeWhile (· == '"')).length ++ e :: y := fun e y =>
      List.drop_append_of_le_length (List.takeWhile_prefix _).length_le
    rw [hdrop] at h
    obtain ⟨q, hq, hread⟩ := local_breakOn edge' (List.ne_nil_of_length_pos (by omega)) h hlt
    exact ⟨q, hq, fun y => by rw [if_pos hfence, hdrop]; exact hread y⟩
  · rename_i hfence
    have hlocal : Local edge edge' fun s rest =>
        (if (p.takeWhile isStringMark).contains '@' = true then afterVerbatim s
          else afterPlainString s) = some rest := by
      split
      · exact local_afterVerbatim edge'
      · simp only [afterPlainString_eq]
        exact local_afterQuoted edge' '"'
    cases body with
    | nil =>
        -- The edge would stand in the place of the quote.
        have hshort : rest.length < x.length := by
          split at h
          · exact afterVerbatim_length h
          · exact afterPlainString_length h
        omega
    | cons c body =>
        obtain ⟨q, hq, hread⟩ := hlocal h hlt
        exact ⟨q, hq, fun y => by rw [if_neg hfence]; exact hread y⟩

theorem local_afterLiteral? : Local edge edge' fun s rest => afterLiteral? s = some (.ok rest) := by
  intro p x rest h hlt
  unfold afterLiteral? at h
  split at h
  · rename_i hat
    obtain ⟨q, hq, hread⟩ := local_afterString edge' (Option.some.inj h) hlt
    refine ⟨q, hq, fun y => ?_⟩
    dsimp only
    unfold afterLiteral?
    rw [atString_append edge' p x y] at hat
    rw [if_pos hat, hread y]
  · rename_i hat
    split at h
    · rename_i body hs
      have hbody := afterCharBody_length (restOr_ok.1 (Option.some.inj h))
      obtain ⟨q, rfl, rfl⟩ := exists_of_append_eq (u := ['\'']) hs (Nat.lt_trans hlt hbody)
      rw [Option.some.injEq, restOr_ok, afterCharBody_eq] at h
      obtain ⟨q', hq', hread⟩ := local_afterQuoted edge' '\'' h hlt
      refine ⟨q', hq', fun y => ?_⟩
      dsimp only
      rw [atString_append edge' (['\''] ++ q) x y] at hat
      unfold afterLiteral?
      rw [if_neg hat, ← restOr_ok.2 ((afterCharBody_eq _).trans (hread y))]
      rfl
    · cases h

/-! ## Characters that are read alone -/

omit [IsEdge edge] in
theorem afterComment?_append {c : Char} {p x : List Char}
    (h : afterComment? (c :: (p ++ edge :: x)) = none) (y : List Char) :
    afterComment? (c :: (p ++ edge' :: y)) = none := by
  apply afterComment?_eq_none
  rintro rfl d hd
  cases p with
  | nil =>
      cases hd
      simp only [Bool.or_eq_false_iff, beq_eq_false_iff_ne]
      exact ⟨edge_ne (by decide), edge_ne (by decide)⟩
  | cons e p =>
      cases hd
      by_cases hslash : d = '/'
      · subst hslash
        cases h
      · by_cases hstar : d = '*'
        · subst hstar
          cases h
        · simp [hslash, hstar]

theorem afterLiteral?_append {p x : List Char} (h : afterLiteral? (p ++ edge :: x) = none)
    (y : List Char) : afterLiteral? (p ++ edge' :: y) = none := by
  unfold afterLiteral? at h ⊢
  rw [atString_append edge' p x y] at h
  split
  · rename_i hat
    rw [if_pos hat] at h
    cases h
  · rename_i hat
    rw [if_neg hat] at h
    cases p with
    | nil =>
        split
        · rename_i e
          exact absurd (List.cons.inj e).1 (edge_ne (by decide))
        · rfl
    | cons c p =>
        by_cases hc : c = '\''
        · subst hc
          cases h
        · split
          · rename_i e
            exact absurd (List.cons.inj e).1 hc
          · rfl

/-! ## Code that is passed over -/

theorem afterBlockFrom_of_comment {opens s after : List Char} {depth : Nat}
    (h : afterComment? s = some (.ok after)) :
    afterBlockFrom opens depth s = afterBlockFrom opens depth after := by
  cases s with
  | nil => cases h
  | cons c s => exact afterBlockFrom_comment h

/-- Where a block opens matters only if it does not end. -/
theorem afterBlockFrom_opens {opens s rest : List Char} {depth : Nat}
    (h : afterBlockFrom opens depth s = .ok rest) (opens' : List Char) :
    afterBlockFrom opens' depth s = .ok rest := by
  fun_induction afterBlockFrom opens depth s with
  | case1 => cases h
  | case2 => cases h
  | case3 _ _ _ _ hcomment _ ih => rw [afterBlockFrom_comment hcomment, ih h]
  | case4 => cases h
  | case5 _ _ _ hcomment _ hliteral _ ih => rw [afterBlockFrom_literal hcomment hliteral, ih h]
  | case6 _ _ _ _ ih => rw [afterBlockFrom_open, ih h]
  | case7 => rw [afterBlockFrom_end, h]
  | case8 _ _ _ _ _ ih => rw [afterBlockFrom_close, ih h]
  | case9 _ _ _ hcomment hliteral hopen hclose ih =>
      rw [afterBlockFrom_plain hcomment hliteral hopen hclose, ih h]

theorem local_afterBlockFrom (opens : List Char) (depth : Nat) :
    Local edge edge' fun s rest => afterBlockFrom opens depth s = .ok rest := by
  intro p x rest h hlt
  generalize hs : p ++ edge :: x = s at h
  fun_induction afterBlockFrom opens depth s generalizing p with
  | case1 => cases h
  | case2 => cases h
  | case3 depth c t after hcomment _ ih =>
      have hafter := Nat.lt_trans hlt (afterBlockFrom_length h)
      rw [← hs] at hcomment
      obtain ⟨q, rfl, hread⟩ := local_afterComment? edge' hcomment hafter
        fun hlen => absurd (afterBlockFrom_length h) (by omega)
      obtain ⟨q', hq', hread'⟩ := ih rfl h
      exact ⟨q', hq', fun y => (afterBlockFrom_of_comment (hread y)).trans (hread' y)⟩
  | case4 => cases h
  | case5 depth c t hcomment after hliteral _ ih =>
      have hafter := Nat.lt_trans hlt (afterBlockFrom_length h)
      rw [← hs] at hliteral
      obtain ⟨q, rfl, hread⟩ := local_afterLiteral? edge' hliteral hafter
      obtain ⟨q', hq', hread'⟩ := ih rfl h
      have ht : x.length < t.length := by omega
      obtain ⟨p, rfl, rfl⟩ := exists_of_append_eq (u := [c]) hs ht
      exact ⟨q', hq', fun y => (afterBlockFrom_literal (afterComment?_append edge' hcomment y)
        (hread y)).trans (hread' y)⟩
  | case6 depth t hcomment hliteral ih =>
      have ht := Nat.lt_trans hlt (afterBlockFrom_length h)
      obtain ⟨q, rfl, rfl⟩ := exists_of_append_eq (u := ['\x7b']) hs ht
      obtain ⟨q', hq', hread⟩ := ih rfl h
      exact ⟨q', hq', fun y => (afterBlockFrom_open _ _ _).trans (hread y)⟩
  | case7 t =>
      cases h
      obtain ⟨q, rfl, rfl⟩ := exists_of_append_eq (u := ['\x7d']) hs hlt
      exact ⟨q, rfl, fun y => afterBlockFrom_end _ _⟩
  | case8 t depth _ _ _ ih =>
      have ht := Nat.lt_trans hlt (afterBlockFrom_length h)
      obtain ⟨q, rfl, rfl⟩ := exists_of_append_eq (u := ['\x7d']) hs ht
      obtain ⟨q', hq', hread⟩ := ih rfl h
      exact ⟨q', hq', fun y => (afterBlockFrom_close _ _ _).trans (hread y)⟩
  | case9 depth c t hcomment hliteral hopen hclose ih =>
      have ht := Nat.lt_trans hlt (afterBlockFrom_length h)
      obtain ⟨q, rfl, rfl⟩ := exists_of_append_eq (u := [c]) hs ht
      obtain ⟨q', hq', hread⟩ := ih rfl h
      refine ⟨q', hq', fun y => ?_⟩
      exact (afterBlockFrom_plain (afterComment?_append edge' hcomment y)
        (afterLiteral?_append edge' (p := c :: q) hliteral y) hopen hclose).trans (hread y)

theorem local_afterBlock : Local edge edge' fun s rest => afterBlock s = .ok rest := by
  intro p x rest h hlt
  obtain ⟨q, hq, hread⟩ := local_afterBlockFrom edge' _ 0 h hlt
  exact ⟨q, hq, fun y => afterBlockFrom_opens (hread y) _⟩

section Section

variable {opens rest : List Char} {depth : Nat} {c : Char}

theorem toSectionEnd_literal {s after : List Char} (h : afterLiteral? s = some (.ok after)) :
    toSectionEnd opens depth s = toSectionEnd opens depth after := by
  cases s with
  | nil => cases h
  | cons c s =>
      rw [toSectionEnd.eq_def]
      simp only
      split <;> simp_all

theorem toSectionEnd_code (h : afterLiteral? (c :: rest) = none) :
    toSectionEnd opens depth (c :: rest) =
      if c = '[' then toSectionEnd opens (depth + 1) rest
      else if c = ']' then
        match depth with
        | 0 => .ok (c :: rest)
        | depth + 1 => toSectionEnd opens depth rest
      else toSectionEnd opens depth rest := by
  rw [toSectionEnd.eq_def]
  simp only
  split
  · simp_all
  · simp_all
  · cases depth <;> rfl

end Section

theorem toSectionEnd_opens {opens s rest : List Char} {depth : Nat}
    (h : toSectionEnd opens depth s = .ok rest) (opens' : List Char) :
    toSectionEnd opens' depth s = .ok rest := by
  fun_induction toSectionEnd opens depth s with
  | case1 => cases h
  | case2 => cases h
  | case3 _ _ _ _ hliteral _ ih => rw [toSectionEnd_literal hliteral, ih h]
  | case4 _ _ hliteral ih => rw [toSectionEnd_code hliteral, if_pos rfl, ih h]
  | case5 _ hliteral =>
      rw [toSectionEnd_code hliteral, ← h]
      rfl
  | case6 _ _ hliteral _ ih =>
      rw [toSectionEnd_code hliteral, ← ih h]
      rfl
  | case7 _ _ _ hliteral hopen hclose ih =>
      rw [toSectionEnd_code hliteral, if_neg hopen, if_neg hclose, ih h]

theorem local_toSectionEnd (opens : List Char) (depth : Nat) :
    Local edge edge' fun s rest => toSectionEnd opens depth s = .ok rest := by
  intro p x rest h hlt
  generalize hs : p ++ edge :: x = s at h
  fun_induction toSectionEnd opens depth s generalizing p with
  | case1 => cases h
  | case2 => cases h
  | case3 depth c t after hliteral _ ih =>
      have hafter := Nat.lt_of_lt_of_le hlt (toSectionEnd_length h)
      rw [← hs] at hliteral
      obtain ⟨q, rfl, hread⟩ := local_afterLiteral? edge' hliteral hafter
      obtain ⟨q', hq', hread'⟩ := ih rfl h
      exact ⟨q', hq', fun y => (toSectionEnd_literal (hread y)).trans (hread' y)⟩
  | case4 depth t hliteral ih =>
      have ht := Nat.lt_of_lt_of_le hlt (toSectionEnd_length h)
      obtain ⟨q, rfl, rfl⟩ := exists_of_append_eq (u := ['[']) hs ht
      obtain ⟨q', hq', hread⟩ := ih rfl h
      exact ⟨q', hq', fun y => (toSectionEnd_code
        (afterLiteral?_append edge' (p := '[' :: q) hliteral y)).trans (hread y)⟩
  | case5 t hliteral =>
      cases h
      cases p with
      | nil => exact absurd (List.cons.inj hs).1 (edge_ne (by decide))
      | cons c p =>
          obtain ⟨rfl, rfl⟩ := List.cons.inj hs
          exact ⟨']' :: p, rfl, fun y => toSectionEnd_code
            (afterLiteral?_append edge' (p := ']' :: p) hliteral y)⟩
  | case6 t depth hliteral _ ih =>
      have ht := Nat.lt_of_lt_of_le hlt (toSectionEnd_length h)
      obtain ⟨q, rfl, rfl⟩ := exists_of_append_eq (u := [']']) hs ht
      obtain ⟨q', hq', hread⟩ := ih rfl h
      exact ⟨q', hq', fun y => (toSectionEnd_code
        (afterLiteral?_append edge' (p := ']' :: q) hliteral y)).trans (hread y)⟩
  | case7 depth c t hliteral hopen hclose ih =>
      have ht := Nat.lt_of_lt_of_le hlt (toSectionEnd_length h)
      obtain ⟨q, rfl, rfl⟩ := exists_of_append_eq (u := [c]) hs ht
      obtain ⟨q', hq', hread⟩ := ih rfl h
      refine ⟨q', hq', fun y => ?_⟩
      have hcode := afterLiteral?_append edge' (p := c :: q) hliteral y
      exact (toSectionEnd_code hcode).trans
        ((if_neg hopen).trans ((if_neg hclose).trans (hread y)))

theorem readSection_eq_ok {opens s inner rest : List Char} :
    readSection opens s = .ok (inner, rest) ↔
      ∃ closing, toSectionEnd opens 0 s = .ok closing ∧
        inner = s.take (s.length - closing.length) ∧ rest = closing.drop 1 := by
  simp only [readSection, bind, Except.bind, pure, Except.pure]
  cases toSectionEnd opens 0 s with
  | error u =>
      constructor
      · rintro ⟨⟩
      · rintro ⟨_, ⟨⟩, _⟩
  | ok closing =>
      constructor
      · rintro ⟨⟩
        exact ⟨closing, rfl, rfl, rfl⟩
      · rintro ⟨_, ⟨⟩, rfl, rfl⟩
        rfl

theorem readSection_opens {opens s : List Char} {read : List Char × List Char}
    (h : readSection opens s = .ok read) (opens' : List Char) :
    readSection opens' s = .ok read := by
  obtain ⟨closing, hclosing, hread⟩ := readSection_eq_ok.1 h
  exact readSection_eq_ok.2 ⟨closing, toSectionEnd_opens hclosing opens', hread⟩

/-- What a section holds ends with it. -/
theorem local_readSection (opens inner : List Char) :
    Local edge edge' fun s rest => readSection opens s = .ok (inner, rest) := by
  intro p x rest h hlt
  obtain ⟨closing, hclosing, rfl, rfl⟩ := readSection_eq_ok.1 h
  rw [List.length_drop] at hlt
  obtain ⟨q, rfl, hread⟩ := local_toSectionEnd edge' opens 0 hclosing (by omega)
  have hlen := toSectionEnd_length hclosing
  cases q with
  | nil =>
      simp only [List.nil_append, List.length_cons] at hlt
      omega
  | cons c q =>
      simp only [List.length_append] at hlen
      have hinner := fun e z => @take_append_edge e p (c :: q) z (by omega)
      exact ⟨q, rfl, fun y => readSection_eq_ok.2 ⟨_, hread y, (hinner edge x).trans (hinner edge' y).symm,
        rfl⟩⟩

/-! ## The initializer of a property -/

section Initializer

variable {opens rest : List Char} {c : Char}

theorem afterInitializerFrom_literal {s after : List Char}
    (h : afterLiteral? s = some (.ok after)) :
    afterInitializerFrom opens s = afterInitializerFrom opens after := by
  cases s with
  | nil => cases h
  | cons c s =>
      rw [afterInitializerFrom.eq_def]
      simp only
      split <;> simp_all

theorem afterInitializerFrom_code (h : afterLiteral? (c :: rest) = none) :
    afterInitializerFrom opens (c :: rest) =
      if c = ';' then .ok rest
      else if c = '\x7b' then (afterBlock rest).bind (afterInitializerFrom opens)
      else afterInitializerFrom opens rest := by
  rw [afterInitializerFrom.eq_def]
  simp only
  split
  · simp_all
  · simp_all
  · cases afterBlock rest <;> rfl

theorem afterInitializerFrom_block {after : List Char} (h : afterBlock rest = .ok after) :
    afterInitializerFrom opens ('\x7b' :: rest) = afterInitializerFrom opens after := by
  rw [afterInitializerFrom_code (afterLiteral?_of_plain (by decide) (by decide) rfl _),
    if_neg (by decide), if_pos rfl, h]
  rfl

end Initializer

theorem afterInitializerFrom_opens {opens s rest : List Char}
    (h : afterInitializerFrom opens s = .ok rest) (opens' : List Char) :
    afterInitializerFrom opens' s = .ok rest := by
  fun_induction afterInitializerFrom opens s with
  | case1 => cases h
  | case2 => cases h
  | case3 _ _ _ hliteral _ ih => rw [afterInitializerFrom_literal hliteral, ih h]
  | case4 _ hliteral =>
      rw [afterInitializerFrom_code hliteral, ← h]
      rfl
  | case5 => cases h
  | case6 _ _ hblock _ hliteral _ ih =>
      rw [afterInitializerFrom_block hblock, ih h]
  | case7 _ _ hliteral hend hopen ih =>
      rw [afterInitializerFrom_code hliteral, if_neg hend, if_neg hopen, ih h]

theorem local_afterInitializerFrom (opens : List Char) :
    Local edge edge' fun s rest => afterInitializerFrom opens s = .ok rest := by
  intro p x rest h hlt
  generalize hs : p ++ edge :: x = s at h
  fun_induction afterInitializerFrom opens s generalizing p with
  | case1 => cases h
  | case2 => cases h
  | case3 c t after hliteral _ ih =>
      have hafter := Nat.lt_of_lt_of_le hlt (afterInitializerFrom_length h)
      rw [← hs] at hliteral
      obtain ⟨q, rfl, hread⟩ := local_afterLiteral? edge' hliteral hafter
      obtain ⟨q', hq', hread'⟩ := ih rfl h
      exact ⟨q', hq', fun y => (afterInitializerFrom_literal (hread y)).trans (hread' y)⟩
  | case4 t hliteral =>
      cases h
      obtain ⟨q, rfl, rfl⟩ := exists_of_append_eq (u := [';']) hs hlt
      exact ⟨q, rfl, fun y => afterInitializerFrom_code
        (afterLiteral?_append edge' (p := ';' :: q) hliteral y)⟩
  | case5 => cases h
  | case6 t after hblock _ _ _ ih =>
      have hafter := Nat.lt_of_lt_of_le hlt (afterInitializerFrom_length h)
      have ht := Nat.lt_trans hafter (afterBlockFrom_length hblock)
      obtain ⟨p, rfl, rfl⟩ := exists_of_append_eq (u := ['\x7b']) hs ht
      obtain ⟨q, rfl, hread⟩ := local_afterBlock edge' hblock hafter
      obtain ⟨q', hq', hread'⟩ := ih rfl h
      exact ⟨q', hq', fun y => (afterInitializerFrom_block (hread y)).trans (hread' y)⟩
  | case7 c t hliteral hend hopen ih =>
      have ht := Nat.lt_of_lt_of_le hlt (afterInitializerFrom_length h)
      obtain ⟨q, rfl, rfl⟩ := exists_of_append_eq (u := [c]) hs ht
      obtain ⟨q', hq', hread⟩ := ih rfl h
      refine ⟨q', hq', fun y => ?_⟩
      have hcode := afterLiteral?_append edge' (p := c :: q) hliteral y
      exact (afterInitializerFrom_code hcode).trans
        ((if_neg hend).trans ((if_neg hopen).trans (hread y)))

theorem atAssignment_blank {p : List Char} (hp : allBlank p = true) (s : List Char) :
    atAssignment (p ++ s) = atAssignment s := by
  rw [atAssignment, atAssignment, trimStart, trimStart,
    List.dropWhile_append_of_pos (List.all_eq_true.1 hp)]

theorem atAssignment_append {p : List Char} (hp : allBlank p = false) (x y : List Char) :
    atAssignment (p ++ edge :: x) = atAssignment (p ++ edge' :: y) := by
  obtain ⟨w, t, rfl, hw, ht⟩ := exists_run isBlank p
  cases t with
  | nil =>
      rw [List.append_nil] at hp
      exact absurd (List.all_eq_true.2 hw) (by simpa [allBlank] using hp)
  | cons c t =>
      have htrim : ∀ e z, trimStart (w ++ c :: t ++ e :: z) = c :: t ++ e :: z := fun e z => by
        rw [List.append_assoc]
        exact dropWhile_append_stops hw (stops_cons (ht c rfl) _)
      rw [atAssignment, atAssignment, htrim, htrim]
      cases t with
      | nil =>
          have hedge : edge ≠ '=' := edge_ne (by decide)
          have hedge' : edge' ≠ '=' := edge_ne (by decide)
          by_cases hc : c = '=' <;> simp [hc, hedge, hedge']
      | cons d t => by_cases hc : c = '=' <;> by_cases hd : d = '=' <;> simp [hc, hd]

theorem afterInitializerFrom_blank {opens s : List Char} (hs : allBlank s = true)
    (rest : List Char) : afterInitializerFrom opens s ≠ .ok rest := by
  induction s with
  | nil =>
      rw [afterInitializerFrom]
      intro h
      cases h
  | cons c s ih =>
      rw [allBlank, List.all_cons, Bool.and_eq_true] at hs
      have hc : ∀ d, isBlank d = false → c ≠ d := by
        rintro d hd rfl
        rw [hs.1] at hd
        cases hd
      have hmark : isStringMark c = false := by
        simp [isStringMark, hc '@' (by decide), hc '$' (by decide)]
      rw [afterInitializerFrom_code
          (afterLiteral?_of_plain (hc _ (by decide)) (hc _ (by decide)) hmark s),
        if_neg (hc _ (by decide)), if_neg (hc _ (by decide))]
      exact ih hs.2

/-- Unless the initializer starts behind the edge, which may be a blank. -/
theorem local_afterInitializer {p x rest : List Char}
    (h : afterInitializer (p ++ edge :: x) = .ok rest) (hlt : x.length < rest.length) :
    ∃ q, rest = q ++ edge :: x ∧
      ∀ y, (allBlank q = true → atAssignment (edge' :: y) = false) →
        afterInitializer (p ++ edge' :: y) = .ok (q ++ edge' :: y) := by
  unfold afterInitializer at h
  split at h
  · rename_i hassign
    obtain ⟨q, hq, hread⟩ := local_afterInitializerFrom edge' _ h hlt
    refine ⟨q, hq, fun y _ => ?_⟩
    have hp : allBlank p = false := by
      -- Blanks alone hold no semicolon at which the initializer could end.
      rw [Bool.eq_false_iff]
      intro hp
      rw [atAssignment_blank hp] at hassign
      have hedge := edge_blank hassign
      obtain ⟨q, -, hread⟩ := local_afterInitializerFrom edge _ h hlt
      refine afterInitializerFrom_blank ?_ _ (hread [])
      rw [allBlank, List.all_append, List.all_cons, hedge, List.all_nil]
      simpa [allBlank] using hp
    rw [atAssignment_append edge' hp x y] at hassign
    rw [afterInitializer, if_pos hassign]
    exact afterInitializerFrom_opens (hread y) _
  · rename_i hassign
    cases h
    refine ⟨p, rfl, fun y hy => ?_⟩
    rw [afterInitializer, if_neg]
    cases hp : allBlank p with
    | true => simpa [atAssignment_blank hp] using hy hp
    | false => rwa [atAssignment_append edge' hp x y] at hassign

end Edge

end Declaration
end DocPages
