/-
Where the scanner with a cursor stands.

Whatever part of it is run in front of a text, the cursor comes to the text that is left there:
`Reads`.  Since a cursor in front of a text lies behind whole characters and has counted the
newlines among them, no slice fails and no line is wrong.
-/
import DocPages.Proofs.Declaration.Cursor

namespace DocPages
namespace Declaration

open Text

/-! ## Slices -/

theorem exists_utf8Size (c : Char) (n : Nat) : ∃ m, c.utf8Size + n = m + 1 :=
  ⟨c.utf8Size + n - 1, by have := c.utf8Size_pos; omega⟩

theorem sliceFrom?_zero (s : List Char) : sliceFrom? s 0 = some s := by
  cases s <;> rfl

theorem sliceTo?_zero (s : List Char) : sliceTo? s 0 = some [] := by
  cases s <;> rfl

/-- A slice begins behind whole characters. -/
theorem sliceFrom?_eq_some {s r : List Char} {n : Nat} :
    sliceFrom? s n = some r ↔ ∃ front, s = front ++ r ∧ n = byteLength front := by
  constructor
  · intro h
    induction s generalizing n with
    | nil =>
        cases n with
        | zero =>
            cases h
            exact ⟨[], rfl, rfl⟩
        | succ n => cases h
    | cons c s ih =>
        cases n with
        | zero =>
            cases h
            exact ⟨[], rfl, rfl⟩
        | succ n =>
            rw [sliceFrom?] at h
            split at h
            · cases h
            · obtain ⟨front, rfl, hn⟩ := ih h
              exact ⟨c :: front, rfl, by rw [byteLength_cons, ← hn]; omega⟩
  · rintro ⟨front, rfl, rfl⟩
    induction front with
    | nil => exact sliceFrom?_zero r
    | cons c front ih =>
        obtain ⟨m, hm⟩ := exists_utf8Size c (byteLength front)
        have hle : ¬ m + 1 < c.utf8Size := by omega
        have hrest : m + 1 - c.utf8Size = byteLength front := by omega
        rw [byteLength_cons, hm, List.cons_append, sliceFrom?, if_neg hle, hrest, ih]

theorem sliceTo?_append (front r : List Char) :
    sliceTo? (front ++ r) (byteLength front) = some front := by
  induction front with
  | nil => exact sliceTo?_zero r
  | cons c front ih =>
      obtain ⟨m, hm⟩ := exists_utf8Size c (byteLength front)
      have hle : ¬ m + 1 < c.utf8Size := by omega
      have hrest : m + 1 - c.utf8Size = byteLength front := by omega
      rw [byteLength_cons, hm, List.cons_append, sliceTo?, if_neg hle, hrest, ih]
      rfl

theorem byteLength_pos {s : List Char} (h : s ≠ []) : 0 < byteLength s := by
  cases s with
  | nil => exact absurd rfl h
  | cons c s =>
      rw [byteLength_cons]
      have := c.utf8Size_pos
      omega

theorem byteLength_eq_length {s : List Char} (h : ∀ c ∈ s, c.utf8Size = 1) :
    byteLength s = s.length := by
  induction s with
  | nil => rfl
  | cons c s ih =>
      rw [List.forall_mem_cons] at h
      rw [byteLength_cons, h.1, ih h.2, List.length_cons, Nat.add_comm]

theorem take_front (front r : List Char) :
    (front ++ r).take ((front ++ r).length - r.length) = front := by
  rw [List.length_append, Nat.add_sub_cancel, List.take_left]

theorem lineOf_append (front r : List Char) : lineOf (front ++ r) r = 1 + front.count '\n' := by
  rw [lineOf, take_front]

/-! ## What is read -/

theorem afterComment?_eq (s : List Char) :
    afterComment? s =
      if startsWith "//".toList s then some (.ok (dropLine s))
      else if startsWith "/*".toList s then some (afterBlockComment s)
      else none := by
  have hstarts : ∀ {mark}, startsWith mark s = true → ∃ t, s = mark ++ t := fun h =>
    (Option.isSome_iff_exists.1 h).imp fun _ => stripStart?_eq_some.1
  unfold afterComment?
  split
  · rfl
  · rfl
  · rename_i hline hblock
    rw [if_neg, if_neg]
    · intro h
      obtain ⟨t, ht⟩ := hstarts h
      exact hblock t ht
    · intro h
      obtain ⟨t, ht⟩ := hstarts h
      exact hline t ht

theorem afterLiteral?_eq (c : Char) (r : List Char) :
    afterLiteral? (c :: r) =
      if atString (c :: r) then some (afterString (c :: r))
      else if c = '\'' then some (restOr .charLiteral (c :: r) (afterCharBody r))
      else none := by
  by_cases hc : c = '\''
  · subst hc
    rfl
  · unfold afterLiteral?
    rw [if_neg hc]
    cases atString (c :: r) with
    | true => rfl
    | false =>
        rw [if_neg Bool.false_ne_true, if_neg Bool.false_ne_true]
        split
        · rename_i h
          exact absurd (List.cons.inj h).1 hc
        · rfl

theorem isStringMark_utf8Size {c : Char} (h : isStringMark c = true) : c.utf8Size = 1 := by
  rcases Bool.or_eq_true _ _ ▸ h with h | h
  all_goals
    rw [beq_iff_eq] at h
    subst h
    decide

theorem afterQuoted_escape {quote : Char} (hquote : quote ≠ '\\') (r : List Char) :
    afterQuoted quote ('\\' :: r) = afterQuoted quote r.tail := by
  cases r with
  | nil => exact (if_neg hquote.symm).trans (if_neg (by decide))
  | cons c r => rfl

theorem afterQuoted_cons {quote c : Char} (hc : c ≠ '\\') (r : List Char) :
    afterQuoted quote (c :: r) =
      if c = quote then some r else if c = '\n' then none else afterQuoted quote r := by
  rw [afterQuoted]
  exact fun _ _ h => absurd h hc

theorem afterVerbatim_of_ne {c : Char} (hc : c ≠ '"') (r : List Char) :
    afterVerbatim (c :: r) = afterVerbatim r := by
  rw [afterVerbatim]
  · exact fun _ h _ => absurd h hc
  · exact fun h => absurd h hc

theorem afterVerbatim_end {r : List Char} (hr : r.head? ≠ some '"') :
    afterVerbatim ('"' :: r) = some r := by
  rw [afterVerbatim]
  rintro r rfl
  exact hr rfl

section Error

variable {c : Char} {r opens : List Char} {u : Unclosed} {depth : Nat}

theorem afterBlockFrom_comment_error (h : afterComment? (c :: r) = some (.error u)) :
    afterBlockFrom opens depth (c :: r) = .error u := by
  rw [afterBlockFrom.eq_def]
  simp only
  split <;> simp_all

theorem afterBlockFrom_literal_error (hc : afterComment? (c :: r) = none)
    (h : afterLiteral? (c :: r) = some (.error u)) :
    afterBlockFrom opens depth (c :: r) = .error u := by
  rw [afterBlockFrom.eq_def]
  simp only
  split
  · simp_all
  · simp_all
  · split <;> simp_all

theorem afterInitializerFrom_literal_error (h : afterLiteral? (c :: r) = some (.error u)) :
    afterInitializerFrom opens (c :: r) = .error u := by
  rw [afterInitializerFrom.eq_def]
  simp only
  split <;> simp_all

theorem toSectionEnd_literal_error (h : afterLiteral? (c :: r) = some (.error u)) :
    toSectionEnd opens depth (c :: r) = .error u := by
  rw [toSectionEnd.eq_def]
  simp only
  split <;> simp_all

end Error

/-! ## Where a cursor stands -/

/-- The cursor is in front of a text that the source ends with: it counts the bytes and the lines
of what stands before. -/
def Cursor.At (source : List Char) (k : Cursor) (r : List Char) : Prop :=
  ∃ front, source = front ++ r ∧ k.pos = byteLength front ∧ k.line = 1 + front.count '\n'

namespace Cursor.At

variable {source r : List Char} {k : Cursor}

theorem line_eq (h : k.At source r) : k.line = lineOf source r := by
  obtain ⟨front, rfl, -, hline⟩ := h
  rw [hline, lineOf_append]

theorem suffix (h : k.At source r) : r <:+ source := by
  obtain ⟨front, rfl, -⟩ := h
  exact List.suffix_append front r

theorem slice (h : k.At source r) : sliceFrom? source k.pos = some r := by
  obtain ⟨front, hsource, hpos, -⟩ := h
  exact sliceFrom?_eq_some.2 ⟨front, hsource, hpos⟩

/-- Behind some more text the cursor has counted its bytes and lines too. -/
theorem advance {u : List Char} (h : k.At source (u ++ r)) :
    Cursor.At source ⟨k.pos + byteLength u, k.line + u.count '\n'⟩ r := by
  obtain ⟨front, hsource, hpos, hline⟩ := h
  refine ⟨front ++ u, by rw [hsource, List.append_assoc], ?_, ?_⟩
  · rw [byteLength_append, hpos]
  · rw [List.count_append, hline, Nat.add_assoc]

theorem pos_eq {u : List Char} {k' : Cursor} (h : k.At source (u ++ r)) (h' : k'.At source r) :
    k'.pos = k.pos + byteLength u := by
  obtain ⟨front, rfl, hpos, -⟩ := h
  obtain ⟨front', hsource, hpos', -⟩ := h'
  rw [← List.append_assoc] at hsource
  rw [hpos, hpos', ← List.append_cancel_right hsource, byteLength_append]

theorem le_bytes (h : k.At source r) : k.pos ≤ byteLength source := by
  obtain ⟨front, rfl, hpos, -⟩ := h
  rw [byteLength_append, hpos]
  exact Nat.le_add_right _ _

/-- A cursor in front of less text stands further on. -/
theorem pos_lt {k' : Cursor} {r' : List Char} (h : k.At source r) (h' : k'.At source r')
    (hlt : r'.length < r.length) : k.pos < k'.pos := by
  obtain ⟨u, rfl⟩ := List.suffix_of_suffix_length_le h'.suffix h.suffix (Nat.le_of_lt hlt)
  have hne : u ≠ [] := by
    rintro rfl
    exact absurd hlt (Nat.lt_irrefl _)
  rw [h.pos_eq h']
  have := byteLength_pos hne
  omega

end Cursor.At

/-- All that the cursor has been. -/
def Track.all (t : Track) : List Cursor := t.now :: t.past

/-- The cursor is in front of a text, it has always been in front of some text, and it has only
moved forward. -/
structure Track.At (source : List Char) (t : Track) (r : List Char) : Prop where
  now : t.now.At source r
  all : ∀ k ∈ t.all, ∃ r, k.At source r
  forward : t.all.Pairwise fun a b => b.pos < a.pos

namespace Track.At

variable {source r : List Char} {t : Track}

theorem start (source : List Char) : Track.At source {} source where
  now := ⟨[], rfl, rfl, rfl⟩
  all := List.forall_mem_singleton.2 ⟨source, [], rfl, rfl, rfl⟩
  forward := List.pairwise_singleton _ _

theorem move {k : Cursor} {r' : List Char} (h : t.At source r) (hk : k.At source r')
    (hlt : r'.length < r.length) : Track.At source ⟨k, t.now :: t.past⟩ r' where
  now := hk
  all := List.forall_mem_cons.2 ⟨⟨r', hk⟩, h.all⟩
  forward := by
    have hnow := h.now.pos_lt hk hlt
    refine List.pairwise_cons.2 ⟨List.forall_mem_cons.2 ⟨hnow, fun b hb => ?_⟩, h.forward⟩
    exact Nat.lt_trans ((List.pairwise_cons.1 h.forward).1 b hb) hnow

end Track.At

/-! ## What reading comes to -/

namespace Reading

/-- In front of a text, reading gives this value and leaves this text, or it stops for this
reason. -/
def Reads {α : Type} (source : List Char) (x : Reading α) (r : List Char) :
    Except Stop (α × List Char) → Prop
  | .ok (a, r') => ∀ t : Track, t.At source r → ∃ t', x t = .ok a t' ∧ t'.At source r'
  | .error stop => ∀ t : Track, t.At source r →
    ∃ t', x t = .error (.fault (stop.fault source)) t' ∧ ∃ r', t'.At source r'

namespace Reads

variable {source r r' : List Char} {α β : Type}
variable {x : Reading α} {f : α → Reading β} {a : α} {b : β} {stop : Stop}
variable {o : Except Stop (β × List Char)}

theorem pure (a : α) (r : List Char) : Reads source (Pure.pure a) r (.ok (a, r)) :=
  fun t ht => ⟨t, rfl, ht⟩

/-- Reading goes on as from a later track. -/
theorem later {x y : Reading β}
    (h : ∀ t : Track, t.At source r → ∃ t', x t = y t' ∧ t'.At source r')
    (hy : Reads source y r' o) : Reads source x r o := by
  match o with
  | .ok (b, r'') =>
      intro t ht
      obtain ⟨t', hrun, ht'⟩ := h t ht
      rw [hrun]
      exact hy t' ht'
  | .error stop =>
      intro t ht
      obtain ⟨t', hrun, ht'⟩ := h t ht
      rw [hrun]
      exact hy t' ht'

theorem bind (hx : Reads source x r (.ok (a, r'))) (hf : Reads source (f a) r' o) :
    Reads source (x >>= f) r o := by
  refine later (fun t ht => ?_) hf
  obtain ⟨t', hrun, ht'⟩ := hx t ht
  refine ⟨t', ?_, ht'⟩
  show EStateM.bind x f t = f a t'
  rw [EStateM.bind, hrun]

theorem bind_error (hx : Reads source x r (.error stop)) :
    Reads source (x >>= f) r (.error stop) := by
  intro t ht
  obtain ⟨t', hx, hend⟩ := hx t ht
  refine ⟨t', ?_, hend⟩
  show EStateM.bind x f t = _
  rw [EStateM.bind, hx]

/-- The value is not looked at. -/
theorem andThen {y : Reading β} (hx : Reads source x r (.ok (a, r')))
    (hy : Reads source y r' o) : Reads source (x >>= fun _ => y) r o :=
  hx.bind hy

theorem here {f : Cursor → Reading β}
    (h : ∀ k : Cursor, k.At source r → Reads source (f k) r o) :
    Reads source (Reading.here >>= f) r o := by
  match o with
  | .ok (b, r') => exact fun t ht => h t.now ht.now t ht
  | .error stop => exact fun t ht => h t.now ht.now t ht

theorem moveTo {k : Cursor} (hk : k.At source r') (hlt : r'.length < r.length) :
    Reads source (Reading.moveTo k) r (.ok ((), r')) :=
  fun _ ht => ⟨_, rfl, ht.move hk hlt⟩

theorem slice {found : Option α} (h : found = some a) (r : List Char) :
    Reads source (Reading.slice found) r (.ok (a, r)) := by
  rw [h]
  exact .pure a r

theorem throw (stop : Stop) (r : List Char) :
    Reads source (throw (.fault (stop.fault source)) : Reading α) r (.error stop) :=
  fun t ht => ⟨t, rfl, r, ht⟩

theorem unterminated {what : Enclosed} {line : Nat} {opens : List Char}
    (hline : line = lineOf source opens) :
    Reads source (Reading.unterminated what line : Reading α) r
      (.error (.unclosed ⟨what, opens⟩)) := by
  rw [hline]
  exact .throw (.unclosed ⟨what, opens⟩) r

end Reads

/-! ## Single characters -/

section Source

variable {source : List Char} {c : Char} {r : List Char}

theorem reads_rest (r : List Char) : Reads source (rest source) r (.ok (r, r)) :=
  .here fun _ hk => .slice hk.slice r

theorem reads_peek (r : List Char) : Reads source (peek source) r (.ok (r.head?, r)) :=
  (reads_rest r).bind (.pure _ r)

theorem reads_bump (r : List Char) : Reads source (bump source) r (.ok (r.head?, r.tail)) := by
  refine (reads_peek r).bind ?_
  cases r with
  | nil => exact .pure none []
  | cons c r =>
      refine .here fun k hk => ?_
      have hnext := hk.advance (u := [c]) (r := r)
      have hcursor : (⟨k.pos + byteLength [c], k.line + [c].count '\n'⟩ : Cursor) =
          ⟨k.pos + c.utf8Size, if c = '\n' then k.line + 1 else k.line⟩ := by
        have hcount : [c].count '\n' = if c = '\n' then 1 else 0 := by
          simp [List.count_cons]
        rw [byteLength_cons, hcount]
        split <;> rfl
      rw [hcursor] at hnext
      exact (Reads.moveTo hnext (Nat.lt_succ_self _)).bind (.pure _ r)

theorem reads_skip {σ α : Type} (next : Turn σ α) (r : List Char) :
    Reads source (skip source next) r (.ok (next, r.tail)) :=
  (reads_bump r).bind (.pure next r.tail)

/-- The text since an earlier cursor is what has been read since. -/
theorem reads_since {k : Cursor} {s : List Char} (hk : k.At source s) (hle : r.length ≤ s.length) :
    Reads source (since source k.pos) r (.ok (s.take (s.length - r.length), r)) := by
  refine .here fun k' hk' => .slice ?_ r
  obtain ⟨u, rfl⟩ := List.suffix_of_suffix_length_le hk'.suffix hk.suffix hle
  have hpos := hk.pos_eq hk'
  have hlength : k'.pos - k.pos = byteLength u := by omega
  rw [if_pos (by omega), hk.slice, Option.bind_some, hlength, sliceTo?_append, take_front]

/-! ## Loops -/

/-- What a turn may do of a loop that is to come to `o`: it goes on in front of less than `n`
characters, it leaves the loop, or it stops.  From a state and a text on, the loop comes to `f`. -/
inductive Turns {σ α : Type} (source : List Char)
    (I : σ → List Char → Prop) (f : σ → List Char → Except Stop (α × List Char))
    (turn : Reading (Turn σ α)) (r : List Char) (n : Nat) (o : Except Stop (α × List Char)) : Prop
  | again {s : σ} {t : List Char} :
      Reads source turn r (.ok (.again s, t)) → t.length < n → I s t → o = f s t →
      Turns source I f turn r n o
  | leave {a : α} {r' : List Char} :
      Reads source turn r (.ok (.leave a, r')) → o = .ok (a, r') →
      Turns source I f turn r n o
  | stop {stop : Stop} :
      Reads source turn r (.error stop) → o = .error stop →
      Turns source I f turn r n o

/-- A loop all of whose turns move forward or leave it comes to its end. -/
theorem reads_loop {σ α : Type} {turn : σ → Reading (Turn σ α)} {I : σ → List Char → Prop}
    {f : σ → List Char → Except Stop (α × List Char)}
    (h : ∀ s r, I s r → Turns source I f (turn s) r r.length (f s r)) (s : σ) (r : List Char)
    (hI : I s r) : Reads source (loop source turn s) r (f s r) := by
  induction hn : r.length using Nat.strong_induction_on generalizing s r with
  | _ n ih =>
      cases h s r hI with
      | @again s' r' hturn hlt hI' hf =>
          rw [hf]
          refine .later (fun t ht => ?_) (ih r'.length (hn ▸ hlt) s' r' hI' rfl)
          obtain ⟨t', hrun, ht'⟩ := hturn t ht
          have hmoved : t.now.pos < t'.now.pos ∧ t'.now.pos ≤ byteLength source :=
            ⟨ht.now.pos_lt ht'.now hlt, ht'.now.le_bytes⟩
          refine ⟨t', ?_, ht'⟩
          rw [loop, hrun]
          exact if_pos hmoved
      | leave hturn hf =>
          rw [hf]
          intro t ht
          obtain ⟨t', hrun, ht'⟩ := hturn t ht
          exact ⟨t', by rw [loop, hrun], ht'⟩
      | stop hturn hf =>
          rw [hf]
          intro t ht
          obtain ⟨t', hrun, hend⟩ := hturn t ht
          exact ⟨t', by rw [loop, hrun], hend⟩

namespace Turns

variable {σ α β : Type} {I : σ → List Char → Prop} {f : σ → List Char → Except Stop (α × List Char)}
variable {n : Nat} {o : Except Stop (α × List Char)}

theorem bind {x : Reading β} {g : β → Reading (Turn σ α)} {b : β} {r' : List Char}
    (hx : Reads source x r (.ok (b, r'))) (h : Turns source I f (g b) r' n o) :
    Turns source I f (x >>= g) r n o := by
  cases h with
  | again hturn hlt hI ho => exact .again (hx.bind hturn) hlt hI ho
  | leave hturn ho => exact .leave (hx.bind hturn) ho
  | stop hturn ho => exact .stop (hx.bind hturn) ho

theorem bind_error {x : Reading β} {g : β → Reading (Turn σ α)} {stop : Stop}
    (hx : Reads source x r (.error stop)) (ho : o = .error stop) :
    Turns source I f (x >>= g) r n o :=
  .stop hx.bind_error ho

theorem goOn {s : σ} (hlt : r.length < n) (ho : o = f s r) (hI : I s r := by exact trivial) :
    Turns source I f (pure (.again s)) r n o :=
  .again (.pure _ r) hlt hI ho

theorem leaves {a : α} (ho : o = .ok (a, r)) :
    Turns source I f (pure (.leave a)) r n o :=
  .leave (.pure _ r) ho

theorem goOn_skip {s : σ} (hlt : r.length < n) (ho : o = f s r) (hI : I s r := by exact trivial) :
    Turns source I f (skip source (.again s)) (c :: r) n o :=
  .again (reads_skip _ (c :: r)) hlt hI ho

theorem leaves_skip {a : α} (ho : o = .ok (a, r)) :
    Turns source I f (skip source (.leave a)) (c :: r) n o :=
  .leave (reads_skip _ (c :: r)) ho

theorem unterminated {what : Enclosed} {line : Nat} {opens : List Char}
    (hline : line = lineOf source opens) (ho : o = .error (.unclosed ⟨what, opens⟩)) :
    Turns source I f (Reading.unterminated what line) r n o :=
  .stop (.unterminated hline) ho

end Turns

/-- What passing over a text comes to. -/
def outcome {α : Type} (value : List Char → α) : Rest → Except Stop (α × List Char)
  | .ok r => .ok (value r, r)
  | .error u => .error (.unclosed u)

theorem outcome_bind {α β : Type} {x : Reading α} {y : α → Reading β} {value : List Char → α}
    {value' : List Char → β} {read : Rest} (hx : Reads source x r (outcome value read))
    (hy : ∀ after, read = .ok after →
      Reads source (y (value after)) after (.ok (value' after, after))) :
    Reads source (x >>= y) r (outcome value' read) := by
  cases read with
  | error u => exact hx.bind_error
  | ok after => exact hx.bind (hy after rfl)

theorem reads_bumpTo {k : Cursor} {u v r : List Char} (hk : k.At source (u ++ r)) (hv : v <:+ u) :
    Reads source (bumpTo source (k.pos + byteLength u)) (v ++ r) (.ok ((), r)) := by
  refine reads_loop (I := fun _ s => ∃ v, v <:+ u ∧ s = v ++ r) (f := fun _ _ => .ok ((), r)) ?_ ()
    (v ++ r) ⟨v, hv, rfl⟩
  rintro ⟨⟩ _ ⟨v, ⟨w, rfl⟩, rfl⟩
  cases v with
  | nil =>
      refine .leave (.here fun k' hk' => ?_) rfl
      have hpos := hk.pos_eq hk'
      rw [if_neg (by omega)]
      exact .pure _ r
  | cons c v =>
      refine .again (s := ()) (t := v ++ r) (.here fun k' hk' => ?_) (Nat.lt_succ_self _)
        ⟨v, ⟨w ++ [c], by simp⟩, rfl⟩ rfl
      have hpos := Cursor.At.pos_eq (u := w) (by rwa [List.append_assoc] at hk) hk'
      have hlt := byteLength_pos (List.cons_ne_nil c v)
      rw [if_pos (by rw [byteLength_append]; omega)]
      exact reads_skip _ _

/-! ## Comments -/

theorem find?_newline (s : List Char) :
    (find? ['\n'] s).getD (byteLength s) = byteLength (Declaration.takeLine s) := by
  induction s with
  | nil => rfl
  | cons c s ih =>
      by_cases hc : c = '\n'
      · subst hc
        rfl
      · have htake : Declaration.takeLine (c :: s) = c :: Declaration.takeLine s := by
          rw [Declaration.takeLine, List.takeWhile_cons_of_pos (by simpa using hc)]
          rfl
        rw [find?, breakOn_cons_of_none (stripStart?_cons_ne (Ne.symm hc) _ _), htake,
          byteLength_cons, byteLength_cons, ← ih, find?]
        cases breakOn ['\n'] s with
        | none => rfl
        | some cut => exact byteLength_cons c cut.1

theorem reads_takeLine {c : Char} {r : List Char} (hc : c ≠ '\n') :
    Reads source (takeLine source) (c :: r)
      (.ok (Declaration.takeLine (c :: r), dropLine (c :: r))) := by
  have hsplit : Declaration.takeLine (c :: r) ++ dropLine (c :: r) = c :: r :=
    List.takeWhile_append_dropWhile
  have hline : (Declaration.takeLine (c :: r)).count '\n' = 0 :=
    List.count_eq_zero.2 fun h => by simpa using List.mem_takeWhile_imp h
  have hdrop : dropLine (c :: r) = dropLine r := List.dropWhile_cons_of_pos (by simpa using hc)
  refine (reads_rest _).bind (.here fun k hk => ?_)
  rw [find?_newline]
  rw [← hsplit] at hk
  have hnext := hk.advance
  rw [hline] at hnext
  have hlt : (dropLine (c :: r)).length < (c :: r).length := hdrop ▸ dropLine_length r
  refine (Reads.moveTo hnext hlt).bind (.slice ?_ _)
  have hslice := sliceTo?_append (Declaration.takeLine (c :: r)) (dropLine (c :: r))
  rwa [hsplit] at hslice

theorem reads_blockComment (b : List Char) :
    Reads source (blockComment source) ('/' :: '*' :: b)
      (outcome (fun after => ('/' :: '*' :: b).take (('/' :: '*' :: b).length - after.length))
        (afterBlockComment ('/' :: '*' :: b))) := by
  refine .here fun k hk => (reads_rest _).bind ?_
  have htwo : sliceFrom? ('/' :: '*' :: b) 2 = some b :=
    sliceFrom?_eq_some.2 ⟨['/', '*'], rfl, by decide⟩
  refine (Reads.slice htwo _).bind ?_
  have hdrop : ('/' :: '*' :: b).drop 2 = b := rfl
  rw [afterBlockComment, find?, hdrop]
  cases hcut : breakOn "*/".toList b with
  | none => exact .unterminated hk.line_eq
  | some cut =>
      obtain ⟨before, after⟩ := cut
      obtain ⟨u, hu⟩ : ∃ u, u = '/' :: '*' :: (before ++ "*/".toList) := ⟨_, rfl⟩
      have hb : '/' :: '*' :: b = u ++ after := by
        rw [hu, breakOn_eq hcut]
        rfl
      have hstop : k.pos + 2 + byteLength before + 2 = k.pos + byteLength u := by
        rw [hu, byteLength_cons, byteLength_cons, byteLength_append]
        have hmark : byteLength "*/".toList = 2 := by decide
        have hslash : '/'.utf8Size = 1 := by decide
        have hstar : '*'.utf8Size = 1 := by decide
        omega
      dsimp only [Option.map_some, restOr, outcome]
      rw [hb] at hk ⊢
      rw [hstop]
      refine (reads_bumpTo hk (List.suffix_refl u)).andThen (reads_since hk ?_)
      rw [List.length_append]
      exact Nat.le_add_left _ _

/-! ## Literals -/

theorem reads_stringStarts (c : Char) (r : List Char) :
    Reads source (stringStarts c (c :: r)) (c :: r) (.ok (atString (c :: r), c :: r)) := by
  have hslice : sliceFrom? (c :: r) ((c :: r).takeWhile isStringMark).length =
      some ((c :: r).dropWhile isStringMark) := by
    refine sliceFrom?_eq_some.2 ⟨_, List.takeWhile_append_dropWhile.symm, ?_⟩
    exact (byteLength_eq_length fun _ hc => isStringMark_utf8Size (List.mem_takeWhile_imp hc)).symm
  unfold stringStarts atString
  by_cases hstart : c = '"' ∨ isStringMark c
  · rw [if_pos hstart]
    by_cases hmarks : ((c :: r).takeWhile isStringMark).length ≤ 3
    · rw [if_pos hmarks, decide_eq_true hmarks, Bool.true_and]
      exact (Reads.slice hslice _).bind (.pure _ _)
    · rw [if_neg hmarks, decide_eq_false hmarks, Bool.false_and]
      exact .pure _ _
  · rw [if_neg hstart]
    rw [not_or] at hstart
    have hquote : ((c :: r).dropWhile isStringMark).head? = some c := by
      rw [List.dropWhile_cons_of_neg hstart.2]
      rfl
    have hne : (some c == some '"') = false := by simpa using hstart.1
    rw [hquote, hne, Bool.and_false]
    exact .pure _ _

theorem reads_marks (r : List Char) :
    Reads source (loop source (marksTurn source) false) r
      (.ok ((r.takeWhile isStringMark).contains '@', r.dropWhile isStringMark)) := by
  refine reads_loop (I := fun _ _ => True)
    (f := fun v r => .ok (v || (r.takeWhile isStringMark).contains '@', r.dropWhile isStringMark))
    ?_ false r trivial
  rintro v r -
  refine .bind (reads_peek r) ?_
  cases r with
  | nil => exact .leaves (congrArg (fun b => Except.ok (b, [])) (Bool.or_false v))
  | cons c r =>
      dsimp only [List.head?_cons]
      by_cases hc : isStringMark c = true
      · rw [if_pos hc, List.takeWhile_cons_of_pos hc, List.dropWhile_cons_of_pos hc,
          List.contains_cons, BEq.comm, ← Bool.or_assoc]
        exact .goOn_skip (Nat.lt_succ_self _) rfl
      · rw [if_neg hc, List.takeWhile_cons_of_neg hc, List.dropWhile_cons_of_neg hc]
        exact .leaves (congrArg (fun b => Except.ok (b, c :: r)) (Bool.or_false v))

section Literal

variable {what : Enclosed} {line : Nat} {opens : List Char}

theorem reads_quoted {quote : Char} (hquote : quote ≠ '\\')
    (hline : line = lineOf source opens) (r : List Char) :
    Reads source (loop source (fun _ => quotedTurn source quote what line) ()) r
      (outcome (fun _ => ()) (restOr what opens (afterQuoted quote r))) := by
  refine reads_loop (I := fun _ _ => True)
    (f := fun _ r => outcome (fun _ => ()) (restOr what opens (afterQuoted quote r))) ?_ () r
    trivial
  rintro ⟨⟩ r -
  refine .bind (reads_bump r) ?_
  cases r with
  | nil => exact .unterminated hline rfl
  | cons c r =>
      dsimp only [List.head?_cons, List.tail_cons]
      by_cases hescape : c = '\\'
      · subst hescape
        rw [if_neg hquote.symm, if_pos rfl, afterQuoted_escape hquote]
        refine .again (reads_skip _ r) ?_ trivial rfl
        rw [List.length_tail, List.length_cons]
        omega
      rw [if_neg hescape, afterQuoted_cons hescape]
      split
      · exact .leaves rfl
      split
      · exact .unterminated hline rfl
      · exact .goOn (Nat.lt_succ_self _) rfl

theorem reads_verbatim (hline : line = lineOf source opens)
    (r : List Char) :
    Reads source (loop source (fun _ => verbatimTurn source line) ()) r
      (outcome (fun _ => ()) (restOr .stringLiteral opens (afterVerbatim r))) := by
  refine reads_loop (I := fun _ _ => True)
    (f := fun _ r => outcome (fun _ => ()) (restOr .stringLiteral opens (afterVerbatim r))) ?_ () r
    trivial
  rintro ⟨⟩ r -
  refine .bind (reads_bump r) ?_
  cases r with
  | nil => exact .unterminated hline rfl
  | cons c r =>
      dsimp only [List.head?_cons, List.tail_cons]
      split
      · rename_i hquote
        rw [afterVerbatim_of_ne hquote]
        exact .goOn (Nat.lt_succ_self _) rfl
      · rename_i hquote
        cases not_not.1 hquote
        refine .bind (reads_peek r) ?_
        split
        · rename_i hdouble
          obtain ⟨r, rfl⟩ := List.head?_eq_some_iff.1 hdouble
          exact .goOn_skip (Nat.lt_succ_of_lt (Nat.lt_succ_self _)) rfl
        · rename_i hend
          rw [afterVerbatim_end hend]
          exact .leaves rfl

end Literal

theorem reads_fencedString {k : Cursor} {s fence t : List Char} (hk : k.At source s)
    (hfence : ∀ c ∈ fence, c = '"') (hne : fence ≠ [])
    (hlength : ∀ after, (breakOn fence t).map Prod.snd = some after → after.length ≤ s.length) :
    Reads source (fencedString source k fence.length) (fence ++ t)
      (outcome (fun after => s.take (s.length - after.length))
        (restOr .stringLiteral s ((breakOn fence t).map Prod.snd))) := by
  have hquotes : List.replicate fence.length '"' = fence :=
    (List.eq_replicate_iff.2 ⟨rfl, hfence⟩).symm
  have hbytes : byteLength fence = fence.length := byteLength_eq_length fun c hc => by
    rw [hfence c hc]
    decide
  have hline : fence.count '\n' = 0 := by
    rw [← hquotes, List.count_replicate]
    rfl
  refine .here fun k' hk' => ?_
  have hmoved := hk'.advance
  rw [hline, hbytes] at hmoved
  have hlt : t.length < (fence ++ t).length := by
    have := List.length_pos_iff.2 hne
    rw [List.length_append]
    omega
  refine (Reads.moveTo hmoved hlt).andThen ((reads_rest t).bind ?_)
  rw [hquotes, find?]
  cases hcut : breakOn fence t with
  | none => exact .unterminated hk.line_eq
  | some cut =>
      obtain ⟨before, after⟩ := cut
      have hend : k'.At source (fence ++ (before ++ fence) ++ after) := by
        rw [List.append_assoc, ← breakOn_eq hcut]
        exact hk'
      have hstop : k'.pos + fence.length + byteLength before + fence.length =
          k'.pos + byteLength (fence ++ (before ++ fence)) := by
        rw [byteLength_append, byteLength_append, hbytes]
        omega
      have hbump := reads_bumpTo hend (List.suffix_append _ _)
      rw [← hstop, ← breakOn_eq hcut] at hbump
      rw [hcut] at hlength
      exact hbump.andThen (reads_since hk (hlength after rfl))

theorem reads_stringLiteral (s : List Char) :
    Reads source (stringLiteral source) s
      (outcome (fun after => s.take (s.length - after.length)) (afterString s)) := by
  refine .here fun k hk => (reads_marks s).bind ((reads_rest _).bind ?_)
  have hlength : ∀ after, afterString s = .ok after → after.length ≤ s.length :=
    fun _ h => Nat.le_of_lt (afterString_length h)
  rw [afterString] at hlength ⊢
  dsimp only at hlength ⊢
  generalize s.dropWhile isStringMark = body at hlength ⊢
  split at hlength
  · rename_i hthree
    rw [if_pos hthree, if_pos hthree]
    have hquotes : ∀ c ∈ body.takeWhile (· == '"'), c = '"' := fun _ hc => by
      simpa using List.mem_takeWhile_imp hc
    obtain ⟨t, ht⟩ := List.takeWhile_prefix (l := body) (· == '"')
    generalize body.takeWhile (· == '"') = fence at *
    subst ht
    rw [List.drop_left] at hlength ⊢
    refine reads_fencedString hk hquotes ?_ fun _ h => hlength _ (restOr_ok.2 h)
    rintro rfl
    exact absurd hthree (by decide)
  · rename_i hthree
    rw [if_neg hthree, if_neg hthree]
    refine (reads_bump body).andThen ?_
    rw [List.drop_one] at hlength ⊢
    split at hlength
    · rename_i hverbatim
      rw [if_pos hverbatim, if_pos hverbatim]
      exact outcome_bind (reads_verbatim hk.line_eq _)
        fun after h => reads_since hk (hlength after h)
    · rename_i hverbatim
      rw [if_neg hverbatim, if_neg hverbatim]
      rw [afterPlainString_eq] at hlength ⊢
      exact outcome_bind (reads_quoted (by decide) hk.line_eq _)
        fun after h => reads_since hk (hlength after h)

theorem reads_charLiteral (body : List Char) :
    Reads source (charLiteral source) ('\'' :: body)
      (outcome (fun _ => ()) (restOr .charLiteral ('\'' :: body) (afterCharBody body))) := by
  refine .here fun k hk => (reads_bump _).andThen ?_
  rw [afterCharBody_eq]
  exact reads_quoted (by decide) hk.line_eq body

/-! ## Comments and literals, if there are any -/

/-- What comes of reading something that need not be there. -/
def attempt {α : Type} (s : List Char) (missing : α) (value : List Char → α) :
    Option Rest → Except Stop (α × List Char)
  | none => .ok (missing, s)
  | some read => outcome value read

theorem reads_comment (s : List Char) :
    Reads source (comment source) s
      (attempt s none (fun after => some (s.take (s.length - after.length)))
        (afterComment? s)) := by
  refine (reads_rest s).bind ?_
  rw [afterComment?_eq]
  split
  · rename_i hline
    obtain ⟨t, ht⟩ := Option.isSome_iff_exists.1 hline
    cases stripStart?_eq_some.1 ht
    have hsplit : Declaration.takeLine ('/' :: '/' :: t) ++ dropLine ('/' :: '/' :: t) =
      '/' :: '/' :: t := List.takeWhile_append_dropWhile
    have htake := take_front (Declaration.takeLine ('/' :: '/' :: t)) (dropLine ('/' :: '/' :: t))
    rw [hsplit] at htake
    refine (reads_takeLine (by decide)).bind ?_
    exact htake ▸ .pure _ _
  split
  · rename_i hblock
    obtain ⟨t, ht⟩ := Option.isSome_iff_exists.1 hblock
    cases stripStart?_eq_some.1 ht
    exact outcome_bind (reads_blockComment t) fun after _ => .pure _ after
  · exact .pure _ s

theorem reads_literal (c : Char) (r : List Char) :
    Reads source (literal source c) (c :: r)
      (attempt (c :: r) false (fun _ => true) (afterLiteral? (c :: r))) := by
  refine (reads_rest _).bind ((reads_stringStarts c r).bind ?_)
  rw [afterLiteral?_eq]
  split
  · exact outcome_bind (reads_stringLiteral _) fun after _ => .pure _ after
  split
  · rename_i hquote
    subst hquote
    exact outcome_bind (reads_charLiteral r) fun after _ => .pure _ after
  · exact .pure _ _

theorem Reads.attempt {α β : Type} {x : Reading β} {missing : β} {value : List Char → β}
    {found : Option Rest} {y : β → Reading α} {o : Except Stop (α × List Char)}
    (hx : Reads source x r (Reading.attempt r missing value found))
    (hfault : ∀ u, found = some (.error u) → o = .error (.unclosed u))
    (hafter : ∀ after, found = some (.ok after) → Reads source (y (value after)) after o)
    (hmissing : found = none → Reads source (y missing) r o) :
    Reads source (x >>= y) r o := by
  match found with
  | none => exact hx.bind (hmissing rfl)
  | some (.error u) =>
      rw [hfault u rfl]
      exact hx.bind_error
  | some (.ok after) => exact hx.bind (hafter after rfl)

/-- A turn of a loop that comes to something that may be there goes on behind it. -/
theorem Turns.attempt {σ α β : Type} {I : σ → List Char → Prop}
    {f : σ → List Char → Except Stop (α × List Char)} {n : Nat} {o : Except Stop (α × List Char)}
    {x : Reading β} {missing : β} {value : List Char → β} {found : Option Rest}
    {turn : β → Reading (Turn σ α)} {next : List Char → σ}
    (hx : Reads source x r (Reading.attempt r missing value found))
    (hnext : ∀ after, turn (value after) = pure (.again (next after)))
    (hlength : ∀ {after}, found = some (.ok after) → after.length < n)
    (hfault : ∀ u, found = some (.error u) → o = .error (.unclosed u))
    (hafter : ∀ after, found = some (.ok after) → o = f (next after) after)
    (hmissing : found = none → Turns source I f (turn missing) r n o)
    (hI : ∀ s r, I s r := by exact fun _ _ => trivial) :
    Turns source I f (x >>= turn) r n o := by
  match found with
  | none => exact .bind hx (hmissing rfl)
  | some (.error u) => exact .bind_error hx (hfault u rfl)
  | some (.ok after) =>
      refine .bind hx ?_
      rw [hnext]
      exact .goOn (hlength rfl) (hafter after rfl) (hI _ _)

/-! ## Code that is passed over -/

section Passed

variable {opens : List Char} {line : Nat}

theorem reads_blockFrom (hline : line = lineOf source opens) (depth : Nat)
    (r : List Char) :
    Reads source (loop source (blockTurn source line) depth) r
      (outcome (fun _ => ()) (afterBlockFrom opens depth r)) := by
  refine reads_loop (I := fun _ _ => True)
    (f := fun depth r => outcome (fun _ => ()) (afterBlockFrom opens depth r)) ?_ depth r trivial
  rintro depth r -
  refine .bind (reads_peek r) ?_
  cases r with
  | nil =>
      rw [afterBlockFrom]
      exact .unterminated hline rfl
  | cons c r =>
      refine .attempt (reads_comment _) (fun _ => rfl) afterComment?_length
        (fun u h => by rw [afterBlockFrom_comment_error h]; rfl)
        (fun after h => by rw [afterBlockFrom_comment h]) fun hcomment => ?_
      rw [Option.isSome_none, if_neg Bool.false_ne_true]
      refine .attempt (reads_literal c r) (fun _ => rfl) afterLiteral?_length
        (fun u h => by rw [afterBlockFrom_literal_error hcomment h]; rfl)
        (fun after h => by rw [afterBlockFrom_literal hcomment h]) fun hliteral => ?_
      rw [if_neg Bool.false_ne_true, afterBlockFrom_code hcomment hliteral]
      split
      · exact .goOn_skip (Nat.lt_succ_self _) rfl
      split
      · cases depth with
        | zero => exact .leaves_skip rfl
        | succ depth => exact .goOn_skip (Nat.lt_succ_self _) rfl
      · exact .goOn_skip (Nat.lt_succ_self _) rfl

theorem reads_skipBlock (r : List Char) :
    Reads source (skipBlock source) r (outcome (fun _ => ()) (afterBlock r)) :=
  .here fun _ hk => reads_blockFrom hk.line_eq 0 r

theorem reads_initializerFrom (hline : line = lineOf source opens)
    (r : List Char) :
    Reads source (loop source (fun _ => initializerTurn source line) ()) r
      (outcome (fun _ => ()) (afterInitializerFrom opens r)) := by
  refine reads_loop (I := fun _ _ => True)
    (f := fun _ r => outcome (fun _ => ()) (afterInitializerFrom opens r)) ?_ () r trivial
  rintro ⟨⟩ r -
  refine .bind (reads_peek r) ?_
  cases r with
  | nil =>
      rw [afterInitializerFrom]
      exact .unterminated hline rfl
  | cons c r =>
      refine .attempt (reads_literal c r) (fun _ => rfl) afterLiteral?_length
        (fun u h => by rw [afterInitializerFrom_literal_error h]; rfl)
        (fun after h => by rw [afterInitializerFrom_literal h]) fun hliteral => ?_
      rw [if_neg Bool.false_ne_true, afterInitializerFrom_code hliteral]
      by_cases hbrace : c = '\x7b'
      · subst hbrace
        rw [if_pos rfl, if_neg (by decide), if_pos rfl]
        refine .bind (reads_bump _) ?_
        have hblock := @reads_skipBlock source r
        cases h : afterBlock r with
        | error u =>
            rw [h] at hblock
            exact .bind_error hblock rfl
        | ok after =>
            rw [h] at hblock
            exact .bind hblock (.goOn (Nat.lt_succ_of_lt (afterBlock_length h)) rfl)
      · rw [if_neg hbrace, if_neg hbrace]
        split
        · exact .leaves_skip rfl
        · exact .goOn_skip (Nat.lt_succ_self _) rfl

theorem reads_skipInitializer (r : List Char) :
    Reads source (skipInitializer source) r (outcome (fun _ => ()) (afterInitializer r)) := by
  refine (reads_rest r).bind ?_
  rw [afterInitializer]
  split
  · exact .here fun _ hk => reads_initializerFrom hk.line_eq r
  · exact .pure _ r

theorem reads_section (hline : line = lineOf source opens) (depth : Nat)
    (r : List Char) :
    Reads source (loop source (sectionTurn source line) depth) r
      (outcome (fun _ => ()) (toSectionEnd opens depth r)) := by
  refine reads_loop (I := fun _ _ => True)
    (f := fun depth r => outcome (fun _ => ()) (toSectionEnd opens depth r)) ?_ depth r trivial
  rintro depth r -
  refine .bind (reads_peek r) ?_
  cases r with
  | nil =>
      rw [toSectionEnd]
      exact .unterminated hline rfl
  | cons c r =>
      refine .attempt (reads_literal c r) (fun _ => rfl) afterLiteral?_length
        (fun u h => by rw [toSectionEnd_literal_error h]; rfl)
        (fun after h => by rw [toSectionEnd_literal h]) fun hliteral => ?_
      rw [if_neg Bool.false_ne_true, toSectionEnd_code hliteral]
      split
      · exact .goOn_skip (Nat.lt_succ_self _) rfl
      split
      · cases depth with
        | zero => exact .leaves rfl
        | succ depth => exact .goOn_skip (Nat.lt_succ_self _) rfl
      · exact .goOn_skip (Nat.lt_succ_self _) rfl

theorem reads_attributeSection (c : Char) (r : List Char) :
    Reads source (attributeSection source) (c :: r)
      ((readSection (c :: r) r).mapError .unclosed) := by
  refine .here fun k hk => (reads_bump _).andThen (.here fun start hstart => ?_)
  have hsection := reads_section hk.line_eq 0 r
  rw [readSection]
  cases h : toSectionEnd (c :: r) 0 r with
  | error u =>
      rw [h] at hsection
      exact hsection.bind_error
  | ok closing =>
      rw [h] at hsection
      refine hsection.andThen ((reads_since hstart (toSectionEnd_length h)).bind ?_)
      exact (reads_bump closing).andThen (List.drop_one (l := closing) ▸ .pure _ _)

theorem reads_pass (opening : Opening) (r : List Char) :
    Reads source (pass source opening) r (outcome (fun _ => ()) (opening.pass r)) := by
  cases opening with
  | scope => exact .pure _ r
  | body => exact reads_skipBlock r
  | property =>
      have hblock := @reads_skipBlock source r
      rw [Opening.pass]
      cases h : afterBlock r with
      | error u =>
          rw [h] at hblock
          exact hblock.bind_error
      | ok after =>
          rw [h] at hblock
          exact hblock.andThen (reads_skipInitializer after)

end Passed

/-! ## The scan -/

/-- What a scan comes to from here on, which leaves no text. -/
def toEnd (st : State) (s : List Char) : Except Stop (List Declaration × List Char) :=
  (scanFrom st s).map fun declarations => (declarations, [])

theorem toEnd_next {st st' : State} {after : List Char} (h : st.next c r = .ok (st', after)) :
    toEnd st (c :: r) = toEnd st' after := by
  rw [toEnd, scanFrom_next h, ← toEnd]

theorem toEnd_stop {st : State} {stop : Stop} (h : st.next c r = .error stop) :
    toEnd st (c :: r) = .error stop := by
  rw [toEnd, scanFrom_cons, h]
  rfl

/-- What a turn of the scan comes to. -/
def turned (step : State × List Char) : Turn State (List Declaration) × List Char :=
  (.again step.1, step.2)

theorem reads_code {st : State} (hcomment : afterComment? (c :: r) = none)
    (hash : ¬(c = '#' ∧ st.headerBlank = true)) (hliteral : afterLiteral? (c :: r) = none) :
    Reads source (codeTurn source st c) (c :: r) ((st.next c r).map turned) := by
  rw [State.next_code hcomment hash hliteral]
  unfold codeTurn
  split
  · have hsection := @reads_attributeSection source c r
    cases h : readSection (c :: r) r with
    | error u =>
        rw [h] at hsection
        exact hsection.bind_error
    | ok read =>
        rw [h] at hsection
        exact hsection.bind (.pure _ _)
  split
  · rw [State.openBrace_eq]
    refine (reads_bump _).andThen ?_
    have hpass := @reads_pass source st.opening r
    cases h : st.opening.pass r with
    | error u =>
        rw [h] at hpass
        exact hpass.bind_error
    | ok after =>
        rw [h] at hpass
        exact hpass.andThen (.pure _ _)
  split
  · exact reads_skip _ _
  split
  · refine (reads_bump _).andThen ?_
    cases st.scopes with
    | nil =>
        refine .here fun k hk => ?_
        rw [hk.line_eq]
        exact .throw (.unbalanced r) r
    | cons scope outer => exact .pure _ _
  split
  · exact reads_skip _ _
  · exact reads_skip _ _

theorem reads_state (st : State) (c : Char) (r : List Char) :
    Reads source (stateTurn source st) (c :: r) ((st.next c r).map turned) := by
  refine (reads_peek _).bind ((reads_rest _).bind (.attempt (reads_comment _) ?_ ?_ ?_))
  · intro u hcomment
    rw [State.next_comment_error hcomment]
    rfl
  · intro after hcomment
    rw [State.next_comment hcomment]
    exact .pure _ after
  intro hcomment
  by_cases hash : c = '#' ∧ st.headerBlank = true
  · have hne : c ≠ '\n' := by
      rw [hash.1]
      decide
    have hdrop : dropLine (c :: r) = dropLine r :=
      List.dropWhile_cons_of_pos (by simpa using hne)
    rw [State.next_directive hcomment hash, ← hdrop]
    dsimp only
    rw [if_pos hash]
    exact (reads_takeLine hne).andThen (.pure _ _)
  dsimp only
  rw [if_neg hash]
  refine .attempt (reads_literal c r) ?_ ?_ fun hliteral => ?_
  · intro u hliteral
    rw [State.next_literal hcomment hash hliteral]
    rfl
  · intro after hliteral
    rw [State.next_literal hcomment hash hliteral]
    exact .pure _ after
  · rw [if_neg Bool.false_ne_true]
    exact reads_code hcomment hash hliteral

theorem turns_state (st : State) (r : List Char) :
    Turns source (fun _ _ => True) toEnd (stateTurn source st) r r.length (toEnd st r) := by
  cases r with
  | nil =>
      refine .bind (reads_peek []) ?_
      dsimp only [List.head?_nil]
      rw [toEnd, scanFrom]
      split
      · exact .leaves rfl
      · exact .stop (.throw (.openScopes st.scopes.length) []) rfl
  | cons c r =>
      have hturn := @reads_state source st c r
      cases h : st.next c r with
      | error stop =>
          rw [h] at hturn
          exact .stop hturn (toEnd_stop h)
      | ok step =>
          rw [h] at hturn
          exact .again hturn (Nat.lt_succ_of_le (State.next_length h)) trivial (toEnd_next h)

theorem reads_run : Reads source (run source) source (toEnd {} source) :=
  reads_loop (fun st r _ => turns_state st r) {} source trivial

end Source

end Reading

end Declaration
end DocPages
