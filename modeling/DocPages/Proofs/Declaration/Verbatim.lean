/-
Verbatim strings are read to their end if their content does not start with a quote.

The quotes at the front are counted before the mark of a verbatim string is looked at,
so content that starts with quotes makes the string a fence.  It is still read to its end
if the same number of quotes ends it: `afterString_verbatim_iff`.
-/
import DocPages.Proofs.Declaration.Moves
import DocPages.Proofs.Declaration.Lookahead

namespace DocPages
namespace Declaration

open Text

abbrev quotes (n : Nat) : List Char := List.replicate n '"'

/-! ## Doubled quotes -/

theorem doubled_cons_quote (s : List Char) : doubled ('"' :: s) = '"' :: '"' :: doubled s := rfl

theorem doubled_cons_of_ne {c : Char} (h : c ≠ '"') (s : List Char) :
    doubled (c :: s) = c :: doubled s := by
  rw [doubled, List.flatMap_cons, if_neg h]
  rfl

theorem doubled_append (s t : List Char) : doubled (s ++ t) = doubled s ++ doubled t :=
  List.flatMap_append

theorem doubled_quotes (n : Nat) : doubled (quotes n) = quotes (2 * n) := by
  induction n with
  | zero => rfl
  | succ n ih =>
      rw [quotes, List.replicate_succ, doubled_cons_quote, ih]
      rfl

theorem doubled_eq_nil {s : List Char} : doubled s = [] ↔ s = [] := by
  cases s with
  | nil => exact iff_of_true rfl rfl
  | cons c s =>
      by_cases hc : c = '"'
      · subst hc
        simp [doubled_cons_quote]
      · simp [doubled_cons_of_ne hc]

theorem doubled_reverse (s : List Char) : (doubled s).reverse = doubled s.reverse := by
  induction s with
  | nil => rfl
  | cons c s ih =>
      rw [List.reverse_cons, doubled_append, ← ih]
      by_cases hc : c = '"'
      · subst hc
        simp [doubled]
      · simp [doubled, hc]

/-- Runs of quotes have an even length in a doubled text. -/
theorem quotes_prefix_doubled {n : Nat} {s : List Char} (h : quotes (2 * n + 1) <+: doubled s) :
    quotes (n + 1) <+: s := by
  induction n generalizing s with
  | zero =>
      cases s with
      | nil => exact h
      | cons c s =>
          by_cases hc : c = '"'
          · subst hc
            exact ⟨s, rfl⟩
          · rw [doubled_cons_of_ne hc] at h
            exact absurd (List.cons_prefix_cons.1 h).1.symm hc
  | succ n ih =>
      cases s with
      | nil => exact absurd (List.prefix_nil.1 h) (List.cons_ne_nil _ _)
      | cons c s =>
          by_cases hc : c = '"'
          · subst hc
            have hrest : quotes (2 * n + 1) <+: doubled s :=
              (List.cons_prefix_cons.1 (List.cons_prefix_cons.1 h).2).2
            exact List.cons_prefix_cons.2 ⟨rfl, ih hrest⟩
          · rw [doubled_cons_of_ne hc] at h
            exact absurd (List.cons_prefix_cons.1 h).1.symm hc

theorem quotes_infix_doubled {n : Nat} {s : List Char} :
    quotes (2 * n + 1) <:+: doubled s ↔ quotes (n + 1) <:+: s := by
  constructor
  · intro h
    induction s with
    | nil => exact absurd (List.infix_nil.1 h) (List.cons_ne_nil _ _)
    | cons c s ih =>
        by_cases hc : c = '"'
        · subst hc
          rcases List.infix_cons_iff.1 h with h | h
          · exact (quotes_prefix_doubled h).isInfix
          · rcases List.infix_cons_iff.1 h with h | h
            · -- The run starts at the second of the two quotes.
              cases n with
              | zero => exact ⟨[], s, rfl⟩
              | succ n =>
                  have hrest : quotes (2 * n + 1) <+: doubled s :=
                    (List.prefix_append (quotes (2 * n + 1)) ['"']).trans
                      (List.replicate_succ' ▸ (List.cons_prefix_cons.1 h).2)
                  exact (List.cons_prefix_cons.2 ⟨rfl, quotes_prefix_doubled hrest⟩).isInfix
            · exact List.infix_cons (ih h)
        · rw [doubled_cons_of_ne hc, List.infix_cons_iff] at h
          rcases h with h | h
          · exact absurd (List.cons_prefix_cons.1 h).1.symm hc
          · exact List.infix_cons (ih h)
  · rintro ⟨before, after, rfl⟩
    refine ⟨doubled before, '"' :: doubled after, ?_⟩
    have hquotes : quotes (2 * (n + 1)) = quotes (2 * n + 1) ++ ['"'] := List.replicate_succ'
    rw [doubled_append, doubled_append, doubled_quotes, hquotes]
    simp only [List.append_assoc, List.singleton_append]

/-- Quotes at the end of a doubled text come from quotes. -/
theorem exists_of_doubled_eq {n : Nat} {s t : List Char} (h : doubled s = t ++ quotes (2 * n)) :
    ∃ u, s = u ++ quotes n ∧ t = doubled u := by
  induction n generalizing s with
  | zero => exact ⟨s, (List.append_nil s).symm, by rw [h]; exact (List.append_nil t).symm⟩
  | succ n ih =>
      have hquotes : quotes (2 * (n + 1)) = quotes (2 * n) ++ ['"', '"'] :=
        (List.replicate_append_replicate (n := 2 * n) (m := 2)).symm
      rw [hquotes, ← List.append_assoc] at h
      rcases List.eq_nil_or_concat s with rfl | ⟨v, c, rfl⟩
      · exact absurd h.symm (by simp [doubled])
      · rw [List.concat_eq_append, doubled_append] at h
        by_cases hc : c = '"'
        · subst hc
          obtain ⟨u, rfl, rfl⟩ := ih (List.append_cancel_right h)
          exact ⟨u, by simp [List.replicate_succ'], rfl⟩
        · rw [doubled_cons_of_ne hc] at h
          have hlast := congrArg List.getLast? h
          simp [doubled] at hlast
          exact absurd hlast hc

/-! ## Where a verbatim string ends -/

/-- Content that is read to its end in a verbatim string. -/
def EndsAtQuote (content : List Char) : Prop :=
  NoQuote content ∨
    ∃ n inner, content = quotes (n + 1) ++ (inner ++ quotes (n + 1)) ∧ inner ≠ [] ∧
      NoQuote inner ∧ NoQuote inner.reverse ∧ ¬ quotes (n + 2) <:+: inner

theorem quotes_succ (n : Nat) : quotes (n + 1) = quotes n ++ ['"'] := List.replicate_succ'

/-- Quotes at both ends of the content make a fence with the quotes of the string. -/
theorem fenced_eq (n : Nat) (inner r : List Char) :
    '"' :: (doubled (quotes n ++ (inner ++ quotes n)) ++ '"' :: r) =
      quotes (2 * n + 1) ++ (doubled inner ++ (quotes (2 * n + 1) ++ r)) := by
  have hend : quotes (2 * n) ++ '"' :: r = quotes (2 * n + 1) ++ r := by
    rw [quotes_succ, List.append_assoc, List.singleton_append]
  simp only [doubled_append, doubled_quotes, List.append_assoc, hend]
  rfl

/-- A fence in front of the closing quote is the first one only if nothing before it holds
one. -/
theorem exists_of_firstAt {n : Nat} {content before r : List Char} (hc : NoQuote content)
    (h : FirstAt (quotes (2 * (n + 1) + 1)) (doubled content ++ '"' :: r) before r) :
    ∃ inner, content = inner ++ quotes (n + 1) ∧ inner ≠ [] ∧ NoQuote inner ∧
      NoQuote inner.reverse ∧ ¬ quotes (n + 2) <:+: inner := by
  obtain ⟨hsplit, hleast⟩ := h
  have hdoubled : doubled content = before ++ quotes (2 * (n + 1)) := by
    have hcut : doubled content ++ ('"' :: r) = before ++ quotes (2 * (n + 1)) ++ '"' :: r := by
      rw [hsplit, quotes_succ]
      simp only [List.append_assoc, List.singleton_append]
    exact List.append_cancel_right hcut
  obtain ⟨inner, rfl, rfl⟩ := exists_of_doubled_eq hdoubled
  have hne : inner ≠ [] := by
    rintro rfl
    exact absurd (hc '"' rfl) (by decide)
  -- An earlier fence would have been the one that is found.
  have hnone : ∀ b a,
      doubled inner ++ quotes (2 * (n + 1) + 1) = b ++ quotes (2 * (n + 1) + 1) ++ a →
        (doubled inner).length ≤ b.length := by
    intro b a hb
    apply hleast b (a ++ r)
    rw [hsplit, hb, List.append_assoc]
  refine ⟨inner, rfl, hne, ?_, ?_, ?_⟩
  · cases inner with
    | nil => exact absurd rfl hne
    | cons c inner => exact stops_cons (p := (· == '"')) (hc c rfl) _
  · intro c hlast
    by_contra hquote
    obtain rfl : c = '"' := by simpa using hquote
    rw [List.head?_reverse, List.getLast?_eq_some_iff] at hlast
    obtain ⟨init, rfl⟩ := hlast
    have hdouble : doubled (init ++ ['"']) = doubled init ++ quotes 2 := doubled_append _ _
    have hlen := hnone (doubled init) (quotes 2) (by
      rw [hdouble, List.append_assoc, List.append_assoc, List.replicate_append_replicate,
        List.replicate_append_replicate, Nat.add_comm])
    rw [hdouble, List.length_append, List.length_replicate] at hlen
    omega
  · intro hinfix
    obtain ⟨b, a, hb⟩ := quotes_infix_doubled.2 hinfix
    have hlen := hnone b (a ++ quotes (2 * (n + 1) + 1)) (by rw [← hb, List.append_assoc])
    have hlen' := congrArg List.length hb
    simp only [List.length_append, List.length_replicate] at hlen hlen'
    omega

section Marks

variable {marks : List Char} (hm : ∀ c ∈ marks, isStringMark c = true)
include hm

/-- Three or more quotes are a fence whatever the marks are. -/
theorem afterString_quotes {n : Nat} (hn : 3 ≤ n) {text r : List Char} (ht : NoQuote text) :
    afterString (marks ++ (quotes n ++ text)) = .ok r ↔
      ∃ before, FirstAt (quotes n) text before r := by
  obtain ⟨k, rfl⟩ : ∃ k, n = k + 1 := ⟨n - 1, by omega⟩
  have hfence : (quotes (k + 1) ++ text).takeWhile (· == '"') = quotes (k + 1) :=
    takeWhile_append_stops (fun c hc => by simp [List.eq_of_mem_replicate hc]) ht
  have hbody : (marks ++ (quotes (k + 1) ++ text)).dropWhile isStringMark =
      quotes (k + 1) ++ text := dropWhile_marks hm _
  have hne : quotes (k + 1) ≠ [] := List.cons_ne_nil _ _
  rw [afterString, hbody]
  rw [restOr_ok, hfence, if_pos (by rwa [List.length_replicate]), List.drop_left,
    Option.map_eq_some_iff]
  constructor
  · rintro ⟨⟨before, after⟩, hfirst, rfl⟩
    exact ⟨before, (breakOn_eq_some_iff hne).1 hfirst⟩
  · rintro ⟨before, hfirst⟩
    exact ⟨_, (breakOn_eq_some_iff hne).2 hfirst, rfl⟩

variable (ha : '@' ∈ marks)
include ha

theorem afterString_verbatim_iff (content : List Char) {r : List Char} (hr : NoQuote r) :
    afterString (marks ++ '"' :: (doubled content ++ '"' :: r)) = .ok r ↔ EndsAtQuote content := by
  constructor
  · intro h
    obtain ⟨run, rest, rfl, hrun, hrest⟩ := exists_run (· == '"') content
    obtain ⟨k, rfl⟩ : ∃ k, run = quotes k :=
      ⟨run.length, List.eq_replicate_of_mem fun c hc => by simpa using hrun c hc⟩
    cases k with
    | zero => exact .inl hrest
    | succ n =>
        refine .inr ⟨n, ?_⟩
        rw [doubled_append, doubled_quotes] at h
        by_cases hne : rest = []
        · subst hne
          have hfence : '"' :: (quotes (2 * (n + 1)) ++ doubled [] ++ '"' :: r) =
              quotes (2 * (n + 1) + 2) ++ r := by
            rw [quotes_succ (2 * (n + 1) + 1), List.append_assoc, List.append_assoc]
            rfl
          rw [hfence] at h
          obtain ⟨before, hsplit, -⟩ := (afterString_quotes hm (by omega) hr).1 h
          have hlen := congrArg List.length hsplit
          simp only [List.length_append, List.length_replicate] at hlen
          omega
        · have htext : NoQuote (doubled rest ++ '"' :: r) :=
            (noQuote_doubled hrest).append_right (mt doubled_eq_nil.1 hne) _
          have hfence : '"' :: (quotes (2 * (n + 1)) ++ doubled rest ++ '"' :: r) =
              quotes (2 * (n + 1) + 1) ++ (doubled rest ++ '"' :: r) := by
            rw [List.append_assoc]
            rfl
          rw [hfence] at h
          obtain ⟨before, hfirst⟩ := (afterString_quotes hm (by omega) htext).1 h
          obtain ⟨inner, rfl, hinner⟩ := exists_of_firstAt hrest hfirst
          exact ⟨inner, rfl, hinner⟩
  · rintro (hc | ⟨n, inner, rfl, hne, hstart, hend, hfence⟩)
    · exact afterString_verbatim hm ha hc hr
    · rw [fenced_eq]
      exact afterString_fence hm (by omega) (mt doubled_eq_nil.1 hne) (noQuote_doubled hstart)
        (doubled_reverse inner ▸ noQuote_doubled hend) (mt quotes_infix_doubled.1 hfence) r

end Marks

/-! ## What follows a verbatim string -/

section Literal

variable {marks : List Char} (hm : ∀ c ∈ marks, isStringMark c = true) (hlen : marks.length ≤ 3)
variable {body r : List Char} (h : afterString (marks ++ '"' :: body) = .ok r)
include hm hlen h

theorem afterLiteral?_string : afterLiteral? (marks ++ '"' :: body) = some (.ok r) := by
  rw [afterLiteral?_marks hm hlen, h]

/-- In a header a string is emptied. -/
theorem scanFrom_string (st : State) :
    scanFrom st (marks ++ '"' :: body) = scanFrom (st.write "\"\"".toList) r := by
  have hliteral := afterLiteral?_string hm hlen h
  have hstart : ∃ c s, marks ++ '"' :: body = c :: s ∧ c ≠ '\'' := by
    cases marks with
    | nil => exact ⟨'"', body, rfl, by decide⟩
    | cons c marks =>
        refine ⟨c, marks ++ '"' :: body, rfl, ?_⟩
        rintro rfl
        exact absurd (hm _ List.mem_cons_self) (by decide)
  obtain ⟨c, s, hs, hquote⟩ := hstart
  rw [hs] at hliteral ⊢
  rw [scanFrom_literal hliteral, if_neg hquote]

end Literal

/-- The contents with which a verbatim string is read to its end.  Then what is read over it
goes on behind it, in a body, an attribute section, an initializer or a header. -/
theorem verbatim_read_iff {marks : List Char}
    (hmarks : marks ∈ ["@".toList, "$@".toList, "@$".toList]) (content : List Char)
    {r : List Char} (hr : NoQuote r) :
    (afterString (marks ++ '"' :: (doubled content ++ '"' :: r)) = .ok r ↔ EndsAtQuote content) ∧
    (EndsAtQuote content →
      (∀ opens depth, afterBlockFrom opens depth (marks ++ '"' :: (doubled content ++ '"' :: r)) =
        afterBlockFrom opens depth r) ∧
      (∀ opens depth, toSectionEnd opens depth (marks ++ '"' :: (doubled content ++ '"' :: r)) =
        toSectionEnd opens depth r) ∧
      (∀ opens, afterInitializerFrom opens (marks ++ '"' :: (doubled content ++ '"' :: r)) =
        afterInitializerFrom opens r) ∧
      ∀ st : State, scanFrom st (marks ++ '"' :: (doubled content ++ '"' :: r)) =
        scanFrom (st.write "\"\"".toList) r) := by
  have hm : (∀ c ∈ marks, isStringMark c = true) ∧ '@' ∈ marks ∧ marks.length ≤ 3 := by
    simp only [List.mem_cons, List.not_mem_nil, or_false] at hmarks
    rcases hmarks with rfl | rfl | rfl <;> simp [isStringMark]
  have hiff := afterString_verbatim_iff hm.1 hm.2.1 content hr
  refine ⟨hiff, fun hends => ?_⟩
  have hstring := hiff.2 hends
  have hliteral := afterLiteral?_string hm.1 hm.2.2 hstring
  exact ⟨afterBlockFrom_marks hm.1 hm.2.2 hstring, fun _ _ => toSectionEnd_literal hliteral,
    fun _ => afterInitializerFrom_literal hliteral, scanFrom_string hm.1 hm.2.2 hstring⟩

/-- Content in quotes: the string starts and ends with three. -/
theorem verbatim_read_iff_quotedWord :
    "@".toList ∈ ["@".toList, "$@".toList, "@$".toList] ∧ NoQuote ";".toList ∧
      EndsAtQuote "\"a\"".toList ∧
      afterString ("@".toList ++ '"' :: (doubled "\"a\"".toList ++ '"' :: ";".toList)) =
        .ok ";".toList ∧
      ∀ st : State, scanFrom st
          ("@".toList ++ '"' :: (doubled "\"a\"".toList ++ '"' :: ";".toList)) =
        scanFrom (st.write "\"\"".toList) ";".toList := by
  have hmarks : "@".toList ∈ ["@".toList, "$@".toList, "@$".toList] := List.mem_cons_self
  have hr : NoQuote ";".toList := stops_cons rfl _
  have hends : EndsAtQuote "\"a\"".toList :=
    .inr ⟨0, "a".toList, rfl, by decide, stops_cons rfl _, stops_cons rfl _, by decide⟩
  have hread := verbatim_read_iff hmarks "\"a\"".toList hr
  exact ⟨hmarks, hr, hends, hread.1.2 hends, (hread.2 hends).2.2.2⟩

/-- Two strings whose contents are a quote in front of `a` and a quote behind `b`. -/
def quotesApart : String :=
  "class A \x7b\nstring s = @\"\"\"a\";\nint t;\nstring u = @\"b\"\"\";\n\x7d\n"

/-- Content that only starts with a quote hides what follows, up to a fence or to the end. -/
theorem verbatim_read_leadingQuote :
    NoQuote ";".toList ∧
      (afterString ("@".toList ++ '"' :: (doubled "\"a".toList ++ '"' :: ";".toList))).toOption =
        none ∧
      (scan "class A \x7b\nstring s = @\"\"\"a\";\nint t;\n\x7d\n").toOption = none ∧
      scan quotesApart =
        .ok [{ names := ["A"], kind := .classType },
             { names := ["s"], kind := .field, parent := some 0 }] :=
  ⟨stops_cons rfl _, by decide, by decide +kernel, scan_eq_ok (by decide +kernel)⟩

end Declaration
end DocPages
