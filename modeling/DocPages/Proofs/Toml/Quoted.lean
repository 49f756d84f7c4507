/-
Every text that is written as TOML is read back, in whichever of the four ways it is
enclosed: `readText?_quote`.
-/
import DocPages.Proofs.Text.Cutting
import DocPages.Proofs.Text.Digits
import DocPages.Toml.Text

namespace DocPages
namespace Toml

open Text

/-- Puts a character in front of a text that is read. -/
def addChar (c : Char) (read : Option (List Char × List Char)) : Option (List Char × List Char) :=
  read.map fun (text, rest) => (c :: text, rest)

theorem toNat_lt_of_isControl {c : Char} (h : isControl c = true) : c.toNat < 65536 := by
  simp only [isControl, Bool.and_eq_true, Bool.or_eq_true, decide_eq_true_eq, beq_iff_eq] at h
  omega

theorem isPlain_of_not_isControl {c : Char} (h : isControl c = false) (hline : c ≠ '\n') :
    isPlain c = true := by
  simp only [isControl, isPlain] at *
  by_cases htab : c = '\t'
  · simp [htab]
  · simp [htab, hline] at h ⊢
    omega

/-! ## Escapes -/

/-- What stands behind the backslash of an escape. -/
inductive EscapeOf (c : Char) : List Char → Prop
  | letter {letter : Char} : escaped? letter = some c → EscapeOf c [letter]
  | code : c.toNat < 65536 → EscapeOf c ('u' :: fourHex upperHex c.toNat)

theorem EscapeOf.read {c : Char} {s : List Char} (h : EscapeOf c s) (rest : List Char) :
    readEscape? (s ++ rest) = some (c, rest) := by
  cases h with
  | @letter letter h =>
      have hu : ∀ d, letter = d → escaped? d = none → False := by
        rintro d rfl hnone
        rw [h] at hnone
        cases hnone
      rw [List.singleton_append, readEscape?, h]
      · rfl
      · exact fun _ _ _ _ _ e => absurd rfl (hu 'u' e)
      · exact fun _ _ _ _ _ _ _ _ _ e => absurd rfl (hu 'U' e)
  | code h =>
      have hvalue := digitsValue?_fourHex hexDigit?_upperHex h
      rw [fourHex, List.map_cons, List.map_cons, List.map_cons, List.map_cons, List.map_nil] at *
      simp only [List.cons_append, List.nil_append, readEscape?, hvalue, Option.bind_eq_bind,
        Option.bind_some, charOfCode?_toNat, Option.map_some]

/-- A character is written as it is or as an escape. -/
theorem escape_cases (c : Char) :
    (escape c = [c] ∧ isPlain c = true ∧ c ≠ '"' ∧ c ≠ '\\') ∨
      ∃ s, escape c = '\\' :: s ∧ EscapeOf c s := by
  unfold escape
  iterate 7
    split
    · subst_vars
      exact .inr ⟨_, rfl, .letter rfl⟩
  split
  · rename_i hcontrol
    exact .inr ⟨_, rfl, .code (toNat_lt_of_isControl hcontrol)⟩
  · rename_i hline _ _ hquote hbackslash hcontrol
    exact .inl ⟨rfl, isPlain_of_not_isControl (by simpa using hcontrol) hline, hquote, hbackslash⟩

/-! ## Texts on one line -/

theorem readBasic_plain {c : Char} (hp : isPlain c = true) (hq : c ≠ '"') (hb : c ≠ '\\')
    (rest : List Char) : readBasic (c :: rest) = addChar c (readBasic rest) := by
  rw [readBasic]
  · rw [if_pos hp]
    rfl
  · exact hq
  · exact hb

theorem readBasic_escape {c : Char} {s : List Char} (h : EscapeOf c s) (rest : List Char) :
    readBasic ('\\' :: (s ++ rest)) = addChar c (readBasic rest) := by
  have hread := h.read rest
  rw [readBasic]
  split
  · rename_i hnone
    rw [hread] at hnone
    cases hnone
  · rename_i hsome
    rw [hread] at hsome
    cases hsome
    rfl

theorem readBasic_flatMap (s r : List Char) :
    readBasic (s.flatMap escape ++ '"' :: r) = some (s, r) := by
  induction s with
  | nil =>
      rw [List.flatMap_nil, List.nil_append, readBasic]
  | cons c s ih =>
      rw [List.flatMap_cons, List.append_assoc]
      rcases escape_cases c with ⟨hescape, hplain, hquote, hbackslash⟩ | ⟨t, hescape, ht⟩
      · rw [hescape, List.singleton_append, readBasic_plain hplain hquote hbackslash, ih]
        rfl
      · rw [hescape, List.cons_append, readBasic_escape ht, ih]
        rfl

theorem readLiteral_plain {s : List Char} (h : ∀ c ∈ s, isPlain c = true ∧ c ≠ '\'')
    (r : List Char) : readLiteral (s ++ '\'' :: r) = some (s, r) := by
  induction s with
  | nil => rfl
  | cons c s ih =>
      obtain ⟨hplain, hmark⟩ := h c List.mem_cons_self
      rw [List.cons_append, readLiteral, if_pos hplain,
        ih fun d hd => h d (List.mem_cons_of_mem c hd)]
      · rfl
      · exact hmark

/-! ## Texts of several lines -/

/-- Marks that stand in front of the closing ones belong to the text. -/
theorem takeTwo_replicate {mark : Char} {r : List Char} (hr : Stops (· == mark) r) {n : Nat}
    (hn : n ≤ 2) : takeTwo mark (List.replicate n mark ++ r) = (List.replicate n mark, r) := by
  have hzero : takeTwo mark r = ([], r) := by
    match r with
    | [] => rfl
    | [a] =>
        have ha : a ≠ mark := by simpa using hr a rfl
        rw [takeTwo, if_neg ha]
    | a :: b :: rest =>
        have ha : a ≠ mark := by simpa using hr a rfl
        rw [takeTwo, if_neg ha]
  have hone : takeTwo mark (mark :: r) = ([mark], r) := by
    cases r with
    | nil => rw [takeTwo, if_pos rfl]
    | cons a r =>
        have ha : a ≠ mark := by simpa using hr a rfl
        rw [takeTwo, if_pos rfl, if_neg ha]
  match n with
  | 0 => exact hzero
  | 1 => exact hone
  | 2 =>
      change takeTwo mark (mark :: mark :: r) = _
      rw [takeTwo, if_pos rfl, if_pos rfl]
      rfl

theorem readLongBasic_plain {c : Char} (hp : isPlain c = true ∨ c = '\n') (hq : c ≠ '"')
    (hb : c ≠ '\\') (rest : List Char) :
    readLongBasic (c :: rest) = addChar c (readLongBasic rest) := by
  have hreturn : c ≠ '\r' := by
    rintro rfl
    revert hp
    decide
  have hgo : (isPlain c || c == '\n') = true := by simpa using hp
  rw [readLongBasic, if_pos hgo]
  · rfl
  · exact fun _ e => absurd e hq
  · exact fun _ e => absurd e hreturn
  · exact hb

theorem readLongBasic_quote {rest : List Char} (h : ∀ t, rest ≠ '"' :: '"' :: t) :
    readLongBasic ('"' :: rest) = addChar '"' (readLongBasic rest) := by
  rw [readLongBasic]
  · rfl
  · exact fun t _ e => h t e
  · exact fun _ e => absurd e (by decide)
  · decide

/-- An escape does not end a line. -/
theorem EscapeOf.afterLineEnd?_eq {c : Char} {s : List Char} (h : EscapeOf c s)
    (rest : List Char) : afterLineEnd? (s ++ rest) = none := by
  have hstart : ∃ d t, s ++ rest = d :: t ∧ isSpace d = false ∧ d ≠ '\n' ∧ d ≠ '\r' := by
    cases h with
    | @letter letter h =>
        have hne : ∀ d, escaped? d = none → letter ≠ d := by
          rintro d hnone rfl
          rw [h] at hnone
          cases hnone
        exact ⟨letter, rest, rfl, by simp [isSpace, hne ' ' rfl, hne '\t' rfl], hne '\n' rfl,
          hne '\r' rfl⟩
    | code => exact ⟨'u', _, rfl, rfl, by decide, by decide⟩
  obtain ⟨d, t, hs, hspace, hline, hreturn⟩ := hstart
  rw [afterLineEnd?, hs, List.dropWhile_cons_of_neg (by simp [hspace]), afterNewline?]
  · rfl
  · exact fun _ e => absurd (List.cons.inj e).1 hline
  · exact fun _ e => absurd (List.cons.inj e).1 hreturn

theorem readLongBasic_escape {c : Char} {s : List Char} (h : EscapeOf c s) (rest : List Char) :
    readLongBasic ('\\' :: (s ++ rest)) = addChar c (readLongBasic rest) := by
  have hread := h.read rest
  have hline := h.afterLineEnd?_eq rest
  rw [readLongBasic]
  split
  · rename_i hsome
    rw [hline] at hsome
    cases hsome
  · split
    · rename_i hnone
      rw [hread] at hnone
      cases hnone
    · rename_i hsome
      rw [hread] at hsome
      cases hsome
      rfl

/-- Bare quotes in front of another character. -/
theorem readLongBasic_quotes {n : Nat} (hn : n ≤ 2) {s text r : List Char}
    (hs : Stops (· == '"') s) (h : readLongBasic s = some (text, r)) :
    readLongBasic (List.replicate n '"' ++ s) = some (List.replicate n '"' ++ text, r) := by
  have hone : readLongBasic ('"' :: s) = some ('"' :: text, r) := by
    rw [readLongBasic_quote, h]
    · rfl
    · rintro t rfl
      exact absurd (hs '"' rfl) (by decide)
  match n with
  | 0 => exact h
  | 1 => exact hone
  | 2 =>
      change readLongBasic ('"' :: '"' :: s) = some ('"' :: '"' :: text, r)
      rw [readLongBasic_quote, hone]
      · rfl
      · rintro t e
        rw [(List.cons.inj e).2] at hs
        exact absurd (hs '"' rfl) (by decide)

theorem replicate_append_cons (c : Char) (n : Nat) (s : List Char) :
    List.replicate n c ++ c :: s = List.replicate (n + 1) c ++ s := by
  rw [List.replicate_succ', List.append_assoc, List.singleton_append]

/-- The invariant: `n` quotes have been written bare and are still to be read. -/
theorem readLongBasic_escapeLong (s : List Char) {r : List Char} (hr : Stops (· == '"') r)
    {n : Nat} (hn : n ≤ 2) :
    readLongBasic (List.replicate n '"' ++ (escapeLong n s ++ '"' :: '"' :: '"' :: r)) =
      some (List.replicate n '"' ++ s, r) := by
  induction s generalizing n with
  | nil =>
      have hquotes : List.replicate n '"' ++ (escapeLong n [] ++ '"' :: '"' :: '"' :: r) =
          '"' :: '"' :: '"' :: (List.replicate n '"' ++ r) := by
        rw [escapeLong, List.nil_append, replicate_append_cons, replicate_append_cons,
          replicate_append_cons]
        rfl
      rw [hquotes, readLongBasic, takeTwo_replicate hr hn, List.append_nil]
  | cons c s ih =>
      have hrest := ih (n := 0) (Nat.zero_le 2)
      rw [List.replicate_zero, List.nil_append, List.nil_append] at hrest
      rw [escapeLong]
      split
      · subst_vars
        split
        · rename_i hlt
          rw [List.cons_append, replicate_append_cons, replicate_append_cons]
          exact ih (by omega)
        · refine readLongBasic_quotes hn (stops_cons rfl _) ?_
          have hescape : EscapeOf '"' ['"'] := .letter rfl
          exact (readLongBasic_escape hescape _).trans (congrArg (addChar '"') hrest)
      · rename_i hquote
        split
        · subst_vars
          refine readLongBasic_quotes hn (stops_cons rfl _) ?_
          rw [List.cons_append, readLongBasic_plain (.inr rfl) hquote (by decide), hrest]
          rfl
        · rename_i hline
          rw [List.append_assoc]
          rcases escape_cases c with ⟨hescape, hplain, -, hbackslash⟩ | ⟨t, hescape, ht⟩
          · rw [hescape]
            have hstops := stops_cons (p := (· == '"')) (beq_false_of_ne hquote)
            refine readLongBasic_quotes hn (hstops _) ?_
            rw [List.singleton_append, readLongBasic_plain (.inl hplain) hquote hbackslash, hrest]
            rfl
          · rw [hescape]
            refine readLongBasic_quotes hn (stops_cons rfl _) ?_
            rw [List.cons_append, readLongBasic_escape ht, hrest]
            rfl

theorem readLongLiteral_plain {c : Char} (hp : isPlain c = true ∨ c = '\n') {rest : List Char}
    (h : ∀ t, c :: rest ≠ '\'' :: '\'' :: '\'' :: t) :
    readLongLiteral (c :: rest) = addChar c (readLongLiteral rest) := by
  have hreturn : c ≠ '\r' := by
    rintro rfl
    revert hp
    decide
  have hgo : (isPlain c || c == '\n') = true := by simpa using hp
  rw [readLongLiteral, if_pos hgo]
  · rfl
  · rintro t rfl rfl
    exact h t rfl
  · exact fun _ e => absurd e hreturn

theorem readLongLiteral_marks {n : Nat} (hn : n ≤ 2) {r : List Char} (hr : Stops (· == '\'') r) :
    readLongLiteral (List.replicate n '\'' ++ '\'' :: '\'' :: '\'' :: r) =
      some (List.replicate n '\'', r) := by
  rw [replicate_append_cons, replicate_append_cons, replicate_append_cons]
  change readLongLiteral ('\'' :: '\'' :: '\'' :: (List.replicate n '\'' ++ r)) = _
  rw [readLongLiteral, takeTwo_replicate hr hn]

/-- Three apostrophes in a row would end the text. -/
theorem readLongLiteral_infix {s r : List Char}
    (hp : ∀ c ∈ s, isPlain c = true ∨ c = '\n') (hs : ¬ List.replicate 3 '\'' <:+: s)
    (hr : Stops (· == '\'') r) :
    readLongLiteral (s ++ '\'' :: '\'' :: '\'' :: r) = some (s, r) := by
  induction s with
  | nil => exact readLongLiteral_marks (Nat.zero_le 2) hr
  | cons c s ih =>
      by_cases hone : c :: s = ['\'']
      · rw [hone]
        exact readLongLiteral_marks (n := 1) (by decide) hr
      by_cases htwo : c :: s = ['\'', '\'']
      · rw [htwo]
        exact readLongLiteral_marks (n := 2) (by decide) hr
      -- Otherwise no three apostrophes start here.
      rw [List.cons_append, readLongLiteral_plain (hp c List.mem_cons_self),
        ih (fun d hd => hp d (List.mem_cons_of_mem c hd)) (mt List.infix_cons hs)]
      · rfl
      · intro t e
        match s with
        | [] =>
            cases e
            exact hone rfl
        | [d] =>
            cases e
            exact htwo rfl
        | d :: f :: s =>
            cases e
            exact hs ⟨[], s, rfl⟩

/-! ## Runs -/

/-- The run that is going on and the longest one so far, after one more character. -/
def countRun (mark : Char) (runs : Nat × Nat) (c : Char) : Nat × Nat :=
  let run := if c = mark then runs.1 + 1 else 0
  (run, max runs.2 run)

theorem longestRun_eq (mark : Char) (s : List Char) :
    longestRun mark s = (s.foldl (countRun mark) (0, 0)).2 := rfl

theorem best_le_foldl (mark : Char) (s : List Char) (runs : Nat × Nat) :
    runs.2 ≤ (s.foldl (countRun mark) runs).2 := by
  induction s generalizing runs with
  | nil => exact Nat.le_refl _
  | cons c s ih => exact Nat.le_trans (Nat.le_max_left _ _) (ih (countRun mark runs c))

theorem run_le_foldl (mark : Char) (n : Nat) (runs : Nat × Nat) :
    runs.1 + (n + 1) ≤ ((List.replicate (n + 1) mark).foldl (countRun mark) runs).2 := by
  have hrun : (countRun mark runs mark).1 = runs.1 + 1 := if_pos rfl
  rw [List.replicate_succ, List.foldl_cons]
  induction n generalizing runs with
  | zero =>
      have hbest : (countRun mark runs mark).1 ≤ (countRun mark runs mark).2 := Nat.le_max_right _ _
      rw [hrun] at hbest
      exact hbest
  | succ n ih =>
      have := ih (countRun mark runs mark) (if_pos rfl)
      rw [List.replicate_succ, List.foldl_cons]
      omega

theorem le_longestRun {mark : Char} {s : List Char} {n : Nat}
    (h : List.replicate (n + 1) mark <:+: s) : n + 1 ≤ longestRun mark s := by
  obtain ⟨before, after, rfl⟩ := h
  have hrun := run_le_foldl mark n (before.foldl (countRun mark) (0, 0))
  rw [longestRun_eq, List.foldl_append, List.foldl_append]
  exact Nat.le_trans (Nat.le_trans (Nat.le_add_left _ _) hrun) (best_le_foldl mark after _)

/-! ## Styles -/

theorem isPlain_of_any {s : List Char} (h : s.any isControl = false) :
    ∀ c ∈ s, isPlain c = true ∨ c = '\n' := by
  intro c hc
  by_cases hline : c = '\n'
  · exact .inr hline
  · refine .inl (isPlain_of_not_isControl ?_ hline)
    rw [List.any_eq_false] at h
    simpa using h c hc

theorem of_style_literal {s : List Char} (h : style s = .literal) :
    s ≠ [] ∧ ∀ c ∈ s, isPlain c = true ∧ c ≠ '\'' := by
  unfold style at h
  dsimp only at h
  split at h
  · split at h <;> cases h
  · rename_i hcontrol
    split at h
    · cases h
    · rename_i hspecial
      split at h
      · rename_i hplain
        rw [Bool.and_eq_true, Bool.not_eq_true', Bool.not_eq_true'] at hplain
        constructor
        · rintro rfl
          exact hspecial rfl
        · intro c hc
          have hne : ∀ d, s.contains d = false → c ≠ d := by
            rintro d hd rfl
            rw [List.contains_iff_mem.2 hc] at hd
            cases hd
          have hc' := isPlain_of_any (by simpa using hcontrol) c hc
          exact ⟨hc'.resolve_right (hne '\n' hplain.1), hne '\'' hplain.2⟩
      · repeat' split at h
        all_goals cases h

theorem of_style_longLiteral {s : List Char} (h : style s = .longLiteral) :
    (∀ c ∈ s, isPlain c = true ∨ c = '\n') ∧ ¬ List.replicate 3 '\'' <:+: s := by
  unfold style at h
  dsimp only at h
  split at h
  · split at h <;> cases h
  · rename_i hcontrol
    refine ⟨isPlain_of_any (by simpa using hcontrol), fun hrun => ?_⟩
    have hlong := le_longestRun hrun
    split at h
    · cases h
    · split at h
      · cases h
      · split at h
        · cases h
        · split at h
          · omega
          · split at h <;> cases h

theorem readText?_basic (s : List Char) {r : List Char} (hr : Stops (· == '"') r) :
    readText? ('"' :: (s.flatMap escape ++ '"' :: r)) = some (s, r) := by
  rw [readText?, readBasic_flatMap]
  rintro t e
  cases s with
  | nil =>
      rw [(List.cons.inj e).2] at hr
      exact absurd (hr '"' rfl) (by decide)
  | cons c s =>
      rw [List.flatMap_cons] at e
      rcases escape_cases c with ⟨hescape, -, hquote, -⟩ | ⟨u, hescape, -⟩
      · rw [hescape] at e
        exact hquote (List.cons.inj e).1
      · rw [hescape] at e
        exact absurd (List.cons.inj e).1 (by decide)

theorem readText?_literal {s : List Char} (hne : s ≠ [])
    (h : ∀ c ∈ s, isPlain c = true ∧ c ≠ '\'') (r : List Char) :
    readText? ('\'' :: (s ++ '\'' :: r)) = some (s, r) := by
  rw [readText?, readLiteral_plain h]
  rintro t e
  cases s with
  | nil => exact hne rfl
  | cons c s => exact (h c List.mem_cons_self).2 (List.cons.inj e).1

/-- What may follow a text: it is not taken for one of its closing marks. -/
abbrev EndsText (r : List Char) : Prop := Stops (fun c => c == '"' || c == '\'') r

theorem readText?_quote (s : List Char) {r : List Char} (hr : EndsText r) :
    readText? (quote s ++ r) = some (s, r) := by
  have hquote : Stops (· == '"') r := fun c hc => (Bool.or_eq_false_iff.1 (hr c hc)).1
  have hmark : Stops (· == '\'') r := fun c hc => (Bool.or_eq_false_iff.1 (hr c hc)).2
  unfold quote
  split
  · simp only [List.cons_append, List.append_assoc]
    exact readText?_basic s hquote
  · rename_i hstyle
    obtain ⟨hne, hplain⟩ := of_style_literal hstyle
    simp only [List.cons_append, List.append_assoc]
    exact readText?_literal hne hplain r
  · have hread := readLongBasic_escapeLong s hquote (Nat.zero_le 2)
    simp only [List.append_assoc]
    exact hread
  · rename_i hstyle
    obtain ⟨hplain, hrun⟩ := of_style_longLiteral hstyle
    simp only [List.append_assoc]
    exact readLongLiteral_infix hplain hrun hmark

end Toml
end DocPages
