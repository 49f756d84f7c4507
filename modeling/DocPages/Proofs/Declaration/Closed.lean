/-
Texts whose comments, literals and braces are complete.

Passing over the body of a member stops at the brace that closes it, whatever
stands in the body: `afterBlock_closed`.
-/
import DocPages.Declaration.Lexeme
import DocPages.Proofs.Text.Cutting

namespace DocPages
namespace Declaration

open Text

/-! ## Literals -/

/-- What stands between two quotes on one line.  A backslash takes the next
character with it. -/
inductive Quoted (quote : Char) : List Char → Prop
  | nil : Quoted quote []
  | plain {c : Char} {s : List Char} :
      c ≠ quote → c ≠ '\\' → c ≠ '\n' → Quoted quote s → Quoted quote (c :: s)
  | escape {c : Char} {s : List Char} : c ≠ '\n' → Quoted quote s → Quoted quote ('\\' :: c :: s)

/-- The content of a verbatim string as it is written. -/
def doubled (content : List Char) : List Char :=
  content.flatMap fun c => if c = '"' then ['"', '"'] else [c]

/-- A quote would make the text one string longer, or a fence. -/
abbrev NoQuote (s : List Char) : Prop := Stops (· == '"') s

inductive StringLiteral : List Char → Prop
  | regular {marks content : List Char} :
      marks ∈ ["".toList, "$".toList] → Quoted '"' content →
      StringLiteral (marks ++ '"' :: (content ++ ['"']))
  | verbatim {marks content : List Char} :
      marks ∈ ["@".toList, "$@".toList, "@$".toList] → NoQuote content →
      StringLiteral (marks ++ '"' :: (doubled content ++ ['"']))
  | raw {dollars quotes : Nat} {content : List Char} :
      3 ≤ quotes → content ≠ [] → NoQuote content → NoQuote content.reverse →
      ¬ List.replicate quotes '"' <:+: content →
      StringLiteral (List.replicate dollars '$' ++
        (List.replicate quotes '"' ++ (content ++ List.replicate quotes '"')))

/-! ## Closed texts -/

/-- Comments that end, whole literals, other characters, and texts of this form in
braces.  No quote follows a string directly. -/
inductive LexicallyClosed : List Char → Prop
  | nil : LexicallyClosed []
  | plain {c : Char} {s : List Char} :
      c ∉ "/'\"@$\x7b\x7d".toList → LexicallyClosed s → LexicallyClosed (c :: s)
  | slash {s : List Char} :
      Stops (fun c => c == '/' || c == '*') s → LexicallyClosed s → LexicallyClosed ('/' :: s)
  | mark {c : Char} {s : List Char} :
      isStringMark c = true → NoQuote s → Stops isStringMark s → LexicallyClosed s →
      LexicallyClosed (c :: s)
  | lineComment {t s : List Char} :
      '\n' ∉ t → LexicallyClosed s → LexicallyClosed ('/' :: '/' :: (t ++ '\n' :: s))
  | blockComment {t s : List Char} :
      ¬ "*/".toList <:+: t → LexicallyClosed s →
      LexicallyClosed ('/' :: '*' :: (t ++ '*' :: '/' :: s))
  | string {t s : List Char} :
      StringLiteral t → NoQuote s → LexicallyClosed s → LexicallyClosed (t ++ s)
  | char {t s : List Char} :
      Quoted '\'' t → LexicallyClosed s → LexicallyClosed ('\'' :: (t ++ '\'' :: s))
  | braces {t s : List Char} :
      LexicallyClosed t → LexicallyClosed s → LexicallyClosed ('\x7b' :: (t ++ '\x7d' :: s))

theorem closed_plain {run s : List Char}
    (hrun : (run.all fun c => !"/'\"@$\x7b\x7d".toList.contains c) = true)
    (hs : LexicallyClosed s) : LexicallyClosed (run ++ s) := by
  induction run with
  | nil => exact hs
  | cons c run ih =>
      rw [List.all_cons, Bool.and_eq_true, Bool.not_eq_true'] at hrun
      refine .plain ?_ (ih hrun.2)
      intro hmem
      rw [List.contains_iff_mem.2 hmem] at hrun
      cases hrun.1

theorem closed_run {run : List Char}
    (hrun : (run.all fun c => !"/'\"@$\x7b\x7d".toList.contains c) = true) :
    LexicallyClosed run := by
  have h := closed_plain hrun .nil
  rwa [List.append_nil] at h

/-! ## Reading literals -/

theorem afterPlainString_quoted {t : List Char} (h : Quoted '"' t) (r : List Char) :
    afterPlainString (t ++ '"' :: r) = some r := by
  induction h with
  | nil => rfl
  | plain hq hb hn _ ih => rw [List.cons_append, afterPlainString] <;> simp_all
  | escape _ _ ih => rw [List.cons_append, List.cons_append, afterPlainString, ih]

theorem afterCharBody_quoted {t : List Char} (h : Quoted '\'' t) (r : List Char) :
    afterCharBody (t ++ '\'' :: r) = some r := by
  induction h with
  | nil => rfl
  | plain hq hb hn _ ih => rw [List.cons_append, afterCharBody] <;> simp_all
  | escape _ _ ih => rw [List.cons_append, List.cons_append, afterCharBody, ih]

theorem afterVerbatim_doubled (content : List Char) {r : List Char} (hr : NoQuote r) :
    afterVerbatim (doubled content ++ '"' :: r) = some r := by
  induction content with
  | nil =>
      cases r with
      | nil => rfl
      | cons c r =>
          have hc : c ≠ '"' := by simpa using hr c rfl
          rw [doubled, List.flatMap_nil, List.nil_append, afterVerbatim]
          intro rest e
          exact hc (List.cons.inj e).1
  | cons c content ih =>
      rw [doubled, List.flatMap_cons, ← doubled]
      by_cases hc : c = '"'
      · rw [if_pos hc]
        exact ih
      · rw [if_neg hc, List.append_assoc, List.singleton_append, afterVerbatim, ih] <;> simp_all

/-- A mark is found at the end of a text if it starts nowhere inside. -/
theorem breakOn_of_first (mark : List Char) {t r : List Char}
    (h : ∀ u c v, t = u ++ c :: v → stripStart? mark (c :: v ++ (mark ++ r)) = none)
    (hm : mark ≠ []) : breakOn mark (t ++ (mark ++ r)) = some (t, r) := by
  induction t with
  | nil =>
      cases mark with
      | nil => exact absurd rfl hm
      | cons m mark =>
          have := stripStart?_append (m :: mark) r
          rw [List.nil_append, List.cons_append, breakOn]
          rw [List.cons_append] at this
          rw [this]
  | cons c t ih =>
      have hstart := h [] c t rfl
      rw [List.cons_append] at hstart ⊢
      rw [breakOn_cons_of_none hstart, ih]
      · rfl
      · intro u d v e
        exact h (c :: u) d v (by rw [e]; rfl)

theorem breakOn_blockEnd {t : List Char} (h : ¬ "*/".toList <:+: t) (r : List Char) :
    breakOn "*/".toList (t ++ '*' :: '/' :: r) = some (t, r) := by
  refine breakOn_of_first "*/".toList ?_ (by decide)
  intro u c v e
  rw [← Option.not_isSome_iff_eq_none, Option.isSome_iff_exists]
  rintro ⟨rest, hs⟩
  rw [stripStart?_eq_some] at hs
  cases v with
  | nil => simp at hs
  | cons d v =>
      simp at hs
      refine h ⟨u, v, ?_⟩
      rw [e, hs.1, hs.2.1]
      simp

theorem breakOn_fence {quotes : Nat} {t : List Char} (h : ¬ List.replicate quotes '"' <:+: t)
    (he : NoQuote t.reverse) (hq : 3 ≤ quotes) (r : List Char) :
    breakOn (List.replicate quotes '"') (t ++ (List.replicate quotes '"' ++ r)) = some (t, r) := by
  apply breakOn_of_first
  · intro u c v e
    rw [← Option.not_isSome_iff_eq_none, Option.isSome_iff_exists]
    rintro ⟨rest, hs⟩
    rw [stripStart?_eq_some] at hs
    rcases List.append_eq_append_iff.1 hs with ⟨w, hw, -⟩ | ⟨w, hw, -⟩
    · -- The fence starts in the last quotes of the content, which has none.
      have hlast : (c :: v).getLast (by simp) = '"' := by
        apply List.eq_of_mem_replicate (n := quotes)
        rw [hw]
        exact List.mem_append_left _ (List.getLast_mem _)
      have hhead : t.reverse.head? = some ((c :: v).getLast (by simp)) := by
        rw [List.head?_reverse, e, List.getLast?_append, List.getLast?_eq_some_getLast (by simp)]
        rfl
      have := he _ hhead
      rw [hlast] at this
      cases this
    · exact h ⟨u, w, by rw [e, hw, List.append_assoc]⟩
  · intro e
    rw [List.replicate_eq_nil_iff] at e
    omega

/-- One quote opens the string, and at most the closing one follows at once. -/
theorem fence_lt_three {content r : List Char} (hc : NoQuote content) (hr : NoQuote r) :
    (('"' :: (content ++ '"' :: r)).takeWhile (· == '"')).length < 3 := by
  cases content with
  | nil =>
      cases r with
      | nil => decide
      | cons c r =>
          have := hr c rfl
          simp only [List.nil_append, List.takeWhile, this]
          decide
  | cons c content =>
      have := hc c rfl
      simp only [List.cons_append, List.takeWhile, this]
      decide

theorem noQuote_of_quoted {t : List Char} (h : Quoted '"' t) : NoQuote t := by
  cases h with
  | nil => exact stops_nil _
  | plain hq _ _ _ => exact stops_cons (by simpa using hq) _
  | escape _ _ => exact stops_cons rfl _

theorem noQuote_doubled {content : List Char} (h : NoQuote content) :
    NoQuote (doubled content) := by
  cases content with
  | nil => exact stops_nil _
  | cons c content =>
      have hc : c ≠ '"' := by simpa using h c rfl
      rw [doubled, List.flatMap_cons, if_neg hc]
      exact stops_cons (by simpa using hc) _

section Marks

variable {marks : List Char} (hm : ∀ c ∈ marks, isStringMark c = true)
include hm

theorem takeWhile_marks (body : List Char) :
    (marks ++ '"' :: body).takeWhile isStringMark = marks :=
  takeWhile_append_stops hm (stops_cons rfl _)

theorem dropWhile_marks (body : List Char) :
    (marks ++ '"' :: body).dropWhile isStringMark = '"' :: body :=
  dropWhile_append_stops hm (stops_cons rfl _)

theorem afterLiteral?_marks (hlen : marks.length ≤ 3) (body : List Char) :
    afterLiteral? (marks ++ '"' :: body) = some (afterString (marks ++ '"' :: body)) := by
  have hat : atString (marks ++ '"' :: body) = true := by
    rw [atString, takeWhile_marks hm, dropWhile_marks hm]
    simpa using hlen
  unfold afterLiteral?
  rw [if_pos hat]

theorem afterString_fence {quotes : Nat} {content : List Char} (hq : 3 ≤ quotes)
    (hne : content ≠ []) (hs : NoQuote content) (he : NoQuote content.reverse)
    (hf : ¬ List.replicate quotes '"' <:+: content) (r : List Char) :
    afterString (marks ++ (List.replicate quotes '"' ++
      (content ++ (List.replicate quotes '"' ++ r)))) = .ok r := by
  have hstops : NoQuote (content ++ (List.replicate quotes '"' ++ r)) := by
    cases content with
    | nil => exact absurd rfl hne
    | cons c content =>
        intro d hd
        exact hs d hd
  obtain ⟨n, rfl⟩ : ∃ n, quotes = n + 1 := ⟨quotes - 1, by omega⟩
  have hfence : (List.replicate (n + 1) '"' ++
      (content ++ (List.replicate (n + 1) '"' ++ r))).takeWhile (· == '"') =
        List.replicate (n + 1) '"' := by
    apply takeWhile_append_stops _ hstops
    intro c hc
    simp [List.eq_of_mem_replicate hc]
  have hdrop := dropWhile_marks hm
    (List.replicate n '"' ++ (content ++ (List.replicate (n + 1) '"' ++ r)))
  rw [← List.cons_append, ← List.replicate_succ] at hdrop
  rw [afterString, hdrop]
  rw [hfence, List.length_replicate, if_pos hq, List.drop_left' List.length_replicate,
    breakOn_fence hf he hq]
  rfl

theorem afterString_verbatim (ha : '@' ∈ marks) {content r : List Char} (hc : NoQuote content)
    (hr : NoQuote r) : afterString (marks ++ '"' :: (doubled content ++ '"' :: r)) = .ok r := by
  have hfence := fence_lt_three (noQuote_doubled hc) hr
  rw [afterString, takeWhile_marks hm, dropWhile_marks hm]
  rw [if_neg (Nat.not_le.2 hfence), if_pos (List.contains_iff_mem.2 ha), List.drop_one,
    List.tail_cons, afterVerbatim_doubled content hr]
  rfl

theorem afterString_regular (ha : '@' ∉ marks) {content r : List Char} (hc : Quoted '"' content)
    (hr : NoQuote r) : afterString (marks ++ '"' :: (content ++ '"' :: r)) = .ok r := by
  have hfence := fence_lt_three (noQuote_of_quoted hc) hr
  rw [afterString, takeWhile_marks hm, dropWhile_marks hm]
  rw [if_neg (Nat.not_le.2 hfence), if_neg (fun h => ha (List.contains_iff_mem.1 h)),
    List.drop_one, List.tail_cons, afterPlainString_quoted hc]
  rfl

end Marks

/-! ## What starts neither a comment nor a literal -/

theorem afterComment?_eq_none {c : Char} {s : List Char}
    (h : c = '/' → Stops (fun d => d == '/' || d == '*') s) : afterComment? (c :: s) = none := by
  unfold afterComment?
  split
  · rename_i e
    obtain ⟨rfl, rfl⟩ := List.cons.inj e
    exact absurd (h rfl '/' rfl) (by decide)
  · rename_i e
    obtain ⟨rfl, rfl⟩ := List.cons.inj e
    exact absurd (h rfl '*' rfl) (by decide)
  · rfl

theorem afterLiteral?_eq_none {c : Char} {s : List Char} (hc : c ≠ '\'')
    (h : atString (c :: s) = false) : afterLiteral? (c :: s) = none := by
  unfold afterLiteral?
  rw [if_neg (by simp [h])]
  split
  · rename_i e
    exact absurd (List.cons.inj e).1 hc
  · rfl

theorem afterComment?_of_ne {c : Char} (h : c ≠ '/') (s : List Char) :
    afterComment? (c :: s) = none :=
  afterComment?_eq_none fun e => absurd e h

theorem afterLiteral?_of_plain {c : Char} (hc : c ≠ '\'') (hq : c ≠ '"')
    (hm : isStringMark c = false) (s : List Char) : afterLiteral? (c :: s) = none := by
  apply afterLiteral?_eq_none hc
  rw [atString, List.dropWhile_cons_of_neg (by simp [hm])]
  simp [hq]

theorem atString_mark {c : Char} {s : List Char} (hm : isStringMark c = true) (hq : NoQuote s)
    (hs : Stops isStringMark s) : atString (c :: s) = false := by
  rw [atString, List.dropWhile_cons_of_pos hm]
  cases s with
  | nil => simp
  | cons d s =>
      have hd : d ≠ '"' := by simpa using hq d rfl
      rw [List.dropWhile_cons_of_neg (by simp [hs d rfl])]
      simp [hd]

theorem afterComment?_of_literal {s : List Char} {read : Rest} (h : afterLiteral? s = some read) :
    afterComment? s = none := by
  cases s with
  | nil => rfl
  | cons c s =>
      apply afterComment?_of_ne
      rintro rfl
      rw [afterLiteral?_of_plain (by decide) (by decide) rfl] at h
      cases h

theorem isStringMark_dollars (n : Nat) : ∀ c ∈ List.replicate n '$', isStringMark c = true := by
  intro c hc
  rw [List.eq_of_mem_replicate hc]
  rfl

theorem afterLiteral?_dollars {n : Nat} (h : 3 ≤ n) (body : List Char) :
    afterLiteral? (List.replicate (n + 1) '$' ++ '"' :: body) = none := by
  have hat : atString (List.replicate (n + 1) '$' ++ '"' :: body) = false := by
    rw [atString, takeWhile_marks (isStringMark_dollars _), List.length_replicate,
      decide_eq_false (by omega), Bool.false_and]
  exact afterLiteral?_eq_none (by decide) hat

/-- A string is read with at most three marks, so those in front of them are not read with it. -/
def surplus (t : List Char) : Nat := (t.takeWhile isStringMark).length - 3

theorem surplus_marks {marks : List Char} (hm : ∀ c ∈ marks, isStringMark c = true)
    (hlen : marks.length ≤ 3) (body : List Char) : surplus (marks ++ '"' :: body) = 0 := by
  rw [surplus, takeWhile_marks hm]
  omega

/-- The end of a string that is read whole, while so many dollars in front of it are read as
characters of their own. -/
structure ReadBehind (dollars : Nat) (u : List Char) : Prop where
  head : u.head?.any (· != '\'') = true
  read : ∀ r, NoQuote r → afterLiteral? (u ++ r) = some (.ok r)
  passed : ∀ k < dollars, ∀ r, afterLiteral? (List.replicate (k + 1) '$' ++ (u ++ r)) = none

theorem head_marks {marks : List Char} (hm : ∀ c ∈ marks, isStringMark c = true)
    (body : List Char) : (marks ++ '"' :: body).head?.any (· != '\'') = true := by
  cases marks with
  | nil => rfl
  | cons c marks =>
      have hc : c ≠ '\'' := fun e => absurd (e ▸ hm c List.mem_cons_self) (by decide)
      simpa using hc

/-- With at most three marks a string is read from its start. -/
theorem exists_read_marks {marks body : List Char} (hm : ∀ c ∈ marks, isStringMark c = true)
    (hlen : marks.length ≤ 3)
    (hread : ∀ r, NoQuote r → afterString (marks ++ '"' :: (body ++ r)) = .ok r) :
    ∃ u, marks ++ '"' :: body = List.replicate (surplus (marks ++ '"' :: body)) '$' ++ u ∧
      ReadBehind (surplus (marks ++ '"' :: body)) u := by
  rw [surplus_marks hm hlen]
  refine ⟨marks ++ '"' :: body, rfl, head_marks hm body, fun r hr => ?_, nofun⟩
  rw [List.append_assoc, List.cons_append, afterLiteral?_marks hm hlen, hread r hr]

/-- Of more than three dollars in front of a string the last three are read with it. -/
theorem exists_read_dollars {dollars : Nat} {body : List Char}
    (hread : ∀ k r, afterString (List.replicate k '$' ++ '"' :: (body ++ r)) = .ok r) :
    ∃ u, List.replicate dollars '$' ++ '"' :: body =
        List.replicate (surplus (List.replicate dollars '$' ++ '"' :: body)) '$' ++ u ∧
      ReadBehind (surplus (List.replicate dollars '$' ++ '"' :: body)) u := by
  by_cases hd : dollars ≤ 3
  · exact exists_read_marks (isStringMark_dollars _) (by simpa using hd)
      fun r _ => hread dollars r
  obtain ⟨k, rfl⟩ : ∃ k, dollars = k + 3 := ⟨dollars - 3, by omega⟩
  have hsurplus : surplus (List.replicate (k + 3) '$' ++ '"' :: body) = k := by
    rw [surplus, takeWhile_marks (isStringMark_dollars _), List.length_replicate,
      Nat.add_sub_cancel]
  rw [hsurplus]
  refine ⟨List.replicate 3 '$' ++ '"' :: body, ?_, head_marks (isStringMark_dollars 3) body,
    fun r _ => ?_, fun j _ r => ?_⟩
  · rw [← List.replicate_append_replicate, List.append_assoc]
  · rw [List.append_assoc, List.cons_append, afterLiteral?_marks (isStringMark_dollars 3) (by decide),
      hread 3 r]
  · rw [List.append_assoc, ← List.append_assoc, List.replicate_append_replicate,
      Nat.add_right_comm, List.cons_append]
    exact afterLiteral?_dollars (by omega) _

/-- A string is read whole, but for the dollars in front of its last three marks. -/
theorem StringLiteral.exists_read {t : List Char} (h : StringLiteral t) :
    ∃ u, t = List.replicate (surplus t) '$' ++ u ∧ ReadBehind (surplus t) u := by
  cases h with
  | @regular marks content hmarks hc =>
      have hm : (∀ c ∈ marks, isStringMark c = true) ∧ '@' ∉ marks ∧ marks.length ≤ 3 := by
        simp only [List.mem_cons, List.not_mem_nil, or_false] at hmarks
        rcases hmarks with rfl | rfl <;> simp [isStringMark]
      refine exists_read_marks hm.1 hm.2.2 fun r hr => ?_
      rw [List.append_assoc]
      exact afterString_regular hm.1 hm.2.1 hc hr
  | @verbatim marks content hmarks hc =>
      have hm : (∀ c ∈ marks, isStringMark c = true) ∧ '@' ∈ marks ∧ marks.length ≤ 3 := by
        simp only [List.mem_cons, List.not_mem_nil, or_false] at hmarks
        rcases hmarks with rfl | rfl | rfl <;> simp [isStringMark]
      refine exists_read_marks hm.1 hm.2.2 fun r hr => ?_
      rw [List.append_assoc]
      exact afterString_verbatim hm.1 hm.2.1 hc hr
  | @raw dollars quotes content hq hne hs he hf =>
      obtain ⟨n, rfl⟩ : ∃ n, quotes = n + 1 := ⟨quotes - 1, by omega⟩
      have hread : ∀ k r, afterString (List.replicate k '$' ++ '"' ::
          (List.replicate n '"' ++ (content ++ List.replicate (n + 1) '"') ++ r)) = .ok r := by
        intro k r
        have hfence := afterString_fence (isStringMark_dollars k) hq hne hs he hf r
        simpa only [List.replicate_succ, List.append_assoc, List.cons_append] using hfence
      exact exists_read_dollars hread

/-- What takes literals whole and passes over a dollar passes over a string. -/
theorem StringLiteral.passed {α : Type} {f : List Char → α} {t : List Char} (h : StringLiteral t)
    (hdollar : ∀ s, afterLiteral? ('$' :: s) = none → f ('$' :: s) = f s)
    (hliteral : ∀ s after, afterLiteral? s = some (.ok after) → f s = f after)
    {r : List Char} (hr : NoQuote r) : f (t ++ r) = f r := by
  obtain ⟨u, ht, -, hread, hnone⟩ := h.exists_read
  rw [← hliteral _ _ (hread r hr), ht, List.append_assoc]
  generalize surplus t = n at hnone
  clear ht
  induction n with
  | zero => rfl
  | succ n ih =>
      rw [← ih fun k hk r => hnone k (Nat.lt_succ_of_lt hk) r]
      exact hdollar _ (hnone n (Nat.lt_succ_self n) r)

/-! ## Passing over a body -/

section Step

variable {opens rest : List Char} {depth : Nat} {c : Char}

theorem afterBlockFrom_comment {after : List Char}
    (h : afterComment? (c :: rest) = some (.ok after)) :
    afterBlockFrom opens depth (c :: rest) = afterBlockFrom opens depth after := by
  rw [afterBlockFrom.eq_def]
  simp only
  split <;> simp_all

theorem afterBlockFrom_literal {after : List Char} (hc : afterComment? (c :: rest) = none)
    (h : afterLiteral? (c :: rest) = some (.ok after)) :
    afterBlockFrom opens depth (c :: rest) = afterBlockFrom opens depth after := by
  rw [afterBlockFrom.eq_def]
  simp only
  split
  · simp_all
  · simp_all
  · split <;> simp_all

variable (hc : afterComment? (c :: rest) = none) (hl : afterLiteral? (c :: rest) = none)
include hc hl

theorem afterBlockFrom_code :
    afterBlockFrom opens depth (c :: rest) =
      if c = '\x7b' then afterBlockFrom opens (depth + 1) rest
      else if c = '\x7d' then
        match depth with
        | 0 => .ok rest
        | depth + 1 => afterBlockFrom opens depth rest
      else afterBlockFrom opens depth rest := by
  rw [afterBlockFrom.eq_def]
  simp only
  split
  · simp_all
  · simp_all
  · split
    · simp_all
    · simp_all
    · cases depth <;> rfl

theorem afterBlockFrom_plain (ho : c ≠ '\x7b') (hd : c ≠ '\x7d') :
    afterBlockFrom opens depth (c :: rest) = afterBlockFrom opens depth rest := by
  rw [afterBlockFrom_code hc hl, if_neg ho, if_neg hd]

end Step

theorem afterBlockFrom_open (opens : List Char) (depth : Nat) (rest : List Char) :
    afterBlockFrom opens depth ('\x7b' :: rest) = afterBlockFrom opens (depth + 1) rest := by
  rw [afterBlockFrom_code (afterComment?_of_ne (by decide) _)
    (afterLiteral?_of_plain (by decide) (by decide) rfl _)]
  rfl

theorem afterBlockFrom_close (opens : List Char) (depth : Nat) (rest : List Char) :
    afterBlockFrom opens (depth + 1) ('\x7d' :: rest) = afterBlockFrom opens depth rest := by
  rw [afterBlockFrom_code (afterComment?_of_ne (by decide) _)
    (afterLiteral?_of_plain (by decide) (by decide) rfl _)]
  rfl

theorem afterBlockFrom_end (opens rest : List Char) :
    afterBlockFrom opens 0 ('\x7d' :: rest) = .ok rest := by
  rw [afterBlockFrom_code (afterComment?_of_ne (by decide) _)
    (afterLiteral?_of_plain (by decide) (by decide) rfl _)]
  rfl

theorem afterBlockFrom_read {s after : List Char} (h : afterLiteral? s = some (.ok after))
    (opens : List Char) (depth : Nat) :
    afterBlockFrom opens depth s = afterBlockFrom opens depth after := by
  cases s with
  | nil => cases h
  | cons c s => exact afterBlockFrom_literal (afterComment?_of_literal h) h

theorem afterBlockFrom_marks {marks : List Char} (hm : ∀ c ∈ marks, isStringMark c = true)
    (hlen : marks.length ≤ 3) {body r : List Char}
    (h : afterString (marks ++ '"' :: body) = .ok r) (opens : List Char) (depth : Nat) :
    afterBlockFrom opens depth (marks ++ '"' :: body) = afterBlockFrom opens depth r :=
  afterBlockFrom_read (by rw [afterLiteral?_marks hm hlen, h]) opens depth

theorem afterBlockFrom_string {t : List Char} (h : StringLiteral t) (opens : List Char)
    (depth : Nat) {r : List Char} (hr : NoQuote r) :
    afterBlockFrom opens depth (t ++ r) = afterBlockFrom opens depth r :=
  h.passed (fun _ hl => afterBlockFrom_plain (afterComment?_of_ne (by decide) _) hl (by decide)
    (by decide)) (fun _ _ hl => afterBlockFrom_read hl opens depth) hr

theorem afterComment?_line {t : List Char} (h : '\n' ∉ t) (r : List Char) :
    afterComment? ('/' :: '/' :: (t ++ '\n' :: r)) = some (.ok ('\n' :: r)) := by
  have hrun : ∀ c ∈ t, decide (c ≠ '\n') = true := by
    intro c hc
    rw [decide_eq_true_eq]
    rintro rfl
    exact h hc
  rw [afterComment?, dropLine]
  exact congrArg (fun s => some (Except.ok s)) (dropWhile_append_stops hrun (stops_cons rfl r))

theorem afterComment?_block {t : List Char} (h : ¬ "*/".toList <:+: t) (r : List Char) :
    afterComment? ('/' :: '*' :: (t ++ '*' :: '/' :: r)) = some (.ok r) := by
  have : List.drop 2 ('/' :: '*' :: (t ++ '*' :: '/' :: r)) = t ++ '*' :: '/' :: r := rfl
  rw [afterComment?, afterBlockComment, this, breakOn_blockEnd h]
  rfl

theorem afterLiteral?_char {t : List Char} (h : Quoted '\'' t) (r : List Char) :
    afterLiteral? ('\'' :: (t ++ '\'' :: r)) = some (.ok r) := by
  have hat : atString ('\'' :: (t ++ '\'' :: r)) = false := rfl
  rw [afterLiteral?, hat, afterCharBody_quoted h]
  rfl

/-- What follows the text does not go on with its last character. -/
def Parted (s r : List Char) : Prop :=
  Stops (fun c => "/*\"@$".toList.contains c) r ∨ ∀ c, s.getLast? = some c → c ∉ "/\"@$".toList

theorem Parted.tail {t s r : List Char} (h : Parted (t ++ s) r) : Parted s r := by
  rcases h with hr | hlast
  · exact .inl hr
  · refine .inr fun c hc => hlast c ?_
    rw [List.getLast?_append, hc]
    rfl

theorem Parted.stops {t s r : List Char} {c : Char} {p : Char → Bool} (h : Parted (t ++ s) r)
    (hlast : t.getLast? = some c) (hc : c ∈ "/\"@$".toList)
    (hp : ∀ d, p d = true → d ∈ "/*\"@$".toList) (hs : Stops p s) : Stops p (s ++ r) := by
  cases s with
  | cons d s => exact hs.append_right (List.cons_ne_nil d s) r
  | nil =>
      rcases h with hr | hparted
      · exact hr.mono fun d hd => List.contains_iff_mem.2 (hp d hd)
      · rw [List.append_nil] at hparted
        exact absurd hc (hparted c hlast)

theorem isStringMark_mem {c : Char} (h : isStringMark c = true) : c ∈ "@$".toList := by
  simpa [isStringMark] using h

theorem StringLiteral.getLast?_eq {t : List Char} (h : StringLiteral t) : t.getLast? = some '"' := by
  cases h with
  | regular | verbatim => rw [← List.cons_append, ← List.append_assoc, List.getLast?_concat]
  | @raw dollars quotes content hq =>
      obtain ⟨n, rfl⟩ : ∃ n, quotes = n + 1 := ⟨quotes - 1, by omega⟩
      rw [List.replicate_succ', ← List.append_assoc, ← List.append_assoc, ← List.append_assoc,
        List.getLast?_concat]

/-- The invariant of the walk: a closed text leaves the depth as it was. -/
theorem afterBlockFrom_closed {s : List Char} (h : LexicallyClosed s) (opens : List Char)
    (depth : Nat) {r : List Char} (hr : Parted s r) :
    afterBlockFrom opens depth (s ++ r) = afterBlockFrom opens depth r := by
  have hquote : ∀ d, (d == '"') = true → d ∈ "/*\"@$".toList := by
    intro d hd
    rw [beq_iff_eq.1 hd]
    decide
  induction h generalizing depth r with
  | nil => rfl
  | @plain c s hc _ ih =>
      simp only [String.reduceToList, List.mem_cons, List.not_mem_nil, or_false, not_or] at hc
      have hm : isStringMark c = false := by simp [isStringMark, hc]
      rw [List.cons_append, afterBlockFrom_plain (afterComment?_of_ne hc.1 _)
        (afterLiteral?_of_plain hc.2.1 hc.2.2.1 hm _) hc.2.2.2.2.2.1 hc.2.2.2.2.2.2,
        ih depth (hr.tail (t := [c]))]
  | @slash s hs _ ih =>
      have hstops : Stops (fun c => c == '/' || c == '*') (s ++ r) :=
        hr.stops (t := ['/']) rfl (by decide) (fun d hd => by
          rw [Bool.or_eq_true, beq_iff_eq, beq_iff_eq] at hd
          rcases hd with rfl | rfl <;> decide) hs
      rw [List.cons_append, afterBlockFrom_plain (afterComment?_eq_none fun _ => hstops)
        (afterLiteral?_of_plain (by decide) (by decide) rfl _) (by decide) (by decide),
        ih depth (hr.tail (t := ['/']))]
  | @mark c s hm hq hs _ ih =>
      have hc : ∀ d, isStringMark d = false → c ≠ d := by
        rintro d hd rfl
        rw [hm] at hd
        cases hd
      have hmark : c ∈ "/\"@$".toList := by
        have hmem := isStringMark_mem hm
        simp only [String.reduceToList, List.mem_cons, List.not_mem_nil, or_false] at hmem
        rcases hmem with rfl | rfl <;> decide
      have hstops : NoQuote (s ++ r) ∧ Stops isStringMark (s ++ r) :=
        ⟨hr.stops (t := [c]) rfl hmark hquote hq, hr.stops (t := [c]) rfl hmark (fun d hd => by
          have hmem := isStringMark_mem hd
          simp only [String.reduceToList, List.mem_cons, List.not_mem_nil, or_false] at hmem
          rcases hmem with rfl | rfl <;> decide) hs⟩
      rw [List.cons_append, afterBlockFrom_plain (afterComment?_of_ne (hc _ rfl) _)
        (afterLiteral?_eq_none (hc _ rfl) (atString_mark hm hstops.1 hstops.2))
        (hc _ rfl) (hc _ rfl), ih depth (hr.tail (t := [c]))]
  | @lineComment t s ht _ ih =>
      have hs : Parted s r := by
        refine Parted.tail (t := '/' :: '/' :: (t ++ ['\n'])) ?_
        simpa using hr
      simp only [List.cons_append, List.append_assoc]
      rw [afterBlockFrom_comment (afterComment?_line ht _),
        afterBlockFrom_plain (afterComment?_of_ne (by decide) _)
          (afterLiteral?_of_plain (by decide) (by decide) rfl _) (by decide) (by decide), ih depth hs]
  | @blockComment t s ht _ ih =>
      have hs : Parted s r := by
        refine Parted.tail (t := '/' :: '*' :: (t ++ "*/".toList)) ?_
        simpa using hr
      simp only [List.cons_append, List.append_assoc]
      rw [afterBlockFrom_comment (afterComment?_block ht _), ih depth hs]
  | @string t s ht hs _ ih =>
      rw [List.append_assoc, afterBlockFrom_string ht _ _
        (hr.stops ht.getLast?_eq (by decide) hquote hs), ih depth hr.tail]
  | @char t s ht _ ih =>
      have hs : Parted s r := by
        refine Parted.tail (t := '\'' :: (t ++ ['\''])) ?_
        simpa using hr
      simp only [List.cons_append, List.append_assoc]
      rw [afterBlockFrom_literal (afterComment?_of_ne (by decide) _) (afterLiteral?_char ht _),
        ih depth hs]
  | @braces t s _ _ iht ihs =>
      have hs : Parted s r := by
        refine Parted.tail (t := '\x7b' :: (t ++ ['\x7d'])) ?_
        simpa using hr
      have ht : Parted t ('\x7d' :: (s ++ r)) := .inl (stops_cons (by decide) _)
      simp only [List.cons_append, List.append_assoc]
      rw [afterBlockFrom_open, iht (depth + 1) ht, afterBlockFrom_close, ihs depth hs]

/-- A closed body ends at its brace. -/
theorem afterBlock_closed {s : List Char} (h : LexicallyClosed s) (r : List Char) :
    afterBlock (s ++ '\x7d' :: r) = .ok r := by
  have hr : Parted s ('\x7d' :: r) := .inl (stops_cons (by decide) r)
  rw [afterBlock, afterBlockFrom_closed h _ 0 hr, afterBlockFrom_end]

end Declaration
end DocPages
