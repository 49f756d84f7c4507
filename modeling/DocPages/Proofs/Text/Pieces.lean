/-
Texts in pieces.

A text is cut at its separators (`splitAt`).  Pieces are put together with a separator between
them (`List.intercalate`), or as lines with a line break behind each (`wholeLines`).  If they hold
no separator, cutting gives them back: `splitAt_intercalate`, `splitAt_wholeLines`.
-/
import DocPages.Text.Cut

namespace DocPages
namespace Text

section Pieces

variable {p : Char → Bool}

/-! ## The pieces of a text -/

theorem splitAt_ne_nil (s : List Char) : splitAt p s ≠ [] := by
  cases s with
  | nil => exact List.cons_ne_nil _ _
  | cons c s =>
      rw [splitAt]
      split
      · exact List.cons_ne_nil _ _
      · split <;> exact List.cons_ne_nil _ _

theorem splitAt_append {c : Char} (h : p c = true) (a b : List Char) :
    splitAt p (a ++ c :: b) = splitAt p a ++ splitAt p b := by
  induction a with
  | nil => simp [splitAt, h]
  | cons d a ih =>
      obtain ⟨first, more, hsplit⟩ := List.exists_cons_of_ne_nil (splitAt_ne_nil (p := p) a)
      rw [List.cons_append, splitAt, splitAt, ih, hsplit]
      split <;> rfl

theorem splitAt_of_none {s : List Char} (h : ∀ c ∈ s, p c = false) : splitAt p s = [s] := by
  induction s with
  | nil => rfl
  | cons c s ih =>
      rw [splitAt, h c List.mem_cons_self, ih fun d hd => h d (List.mem_cons_of_mem _ hd)]
      rfl

theorem mem_of_mem_splitAt {s piece : List Char} (h : piece ∈ splitAt p s) :
    ∀ c ∈ piece, c ∈ s ∧ p c = false := by
  induction s generalizing piece with
  | nil =>
      rw [splitAt, List.mem_singleton] at h
      rw [h]
      exact nofun
  | cons d s ih =>
      have hlater : ∀ {piece : List Char}, piece ∈ splitAt p s →
          ∀ c ∈ piece, c ∈ d :: s ∧ p c = false := fun hpiece c hc =>
        (ih hpiece c hc).imp_left (List.mem_cons_of_mem _)
      obtain ⟨first, more, hsplit⟩ := List.exists_cons_of_ne_nil (splitAt_ne_nil (p := p) s)
      rw [splitAt] at h
      split at h
      · rcases List.mem_cons.1 h with rfl | h
        · exact nofun
        · exact hlater h
      · rename_i hd
        rw [hsplit] at h hlater
        rcases List.mem_cons.1 h with rfl | h
        · intro c hc
          rcases List.mem_cons.1 hc with rfl | hc
          · exact ⟨List.mem_cons_self, by simpa using hd⟩
          · exact hlater List.mem_cons_self c hc
        · exact hlater (List.mem_cons_of_mem _ h)

theorem splitAt_head (p : Char → Bool) (s : List Char) :
    ∃ rest, splitAt p s = s.takeWhile (fun c => !p c) :: rest := by
  induction s with
  | nil => exact ⟨[], rfl⟩
  | cons c s ih =>
      obtain ⟨rest, ih⟩ := ih
      by_cases hc : p c = true
      · exact ⟨splitAt p s, by rw [splitAt, if_pos hc, List.takeWhile_cons_of_neg (by simp [hc])]⟩
      · exact ⟨rest, by rw [splitAt, if_neg hc, ih, List.takeWhile_cons_of_pos (by simp [hc])]⟩

/-- The first piece starts the text, and the others stand in it. -/
theorem infix_of_splitAt_eq_cons {s first : List Char} {more : List (List Char)}
    (h : splitAt p s = first :: more) : first <+: s ∧ ∀ piece ∈ more, piece <:+: s := by
  induction s generalizing first more with
  | nil =>
      obtain ⟨rfl, rfl⟩ := List.cons.inj h
      exact ⟨List.prefix_refl _, nofun⟩
  | cons c s ih =>
      obtain ⟨first', more', hs⟩ := List.exists_cons_of_ne_nil (splitAt_ne_nil (p := p) s)
      obtain ⟨hfirst, hmore⟩ := ih hs
      have hlater : ∀ piece ∈ more', piece <:+: c :: s := fun piece hpiece =>
        (hmore piece hpiece).trans (List.suffix_cons c s).isInfix
      rw [splitAt, hs] at h
      split at h
      · obtain ⟨rfl, rfl⟩ := List.cons.inj h
        have hnext : first' <:+: c :: s := hfirst.isInfix.trans (List.suffix_cons c s).isInfix
        exact ⟨List.nil_prefix, List.forall_mem_cons.2 ⟨hnext, hlater⟩⟩
      · obtain ⟨rfl, rfl⟩ := List.cons.inj h
        exact ⟨(List.prefix_cons_inj c).2 hfirst, hlater⟩

theorem infix_of_mem_splitAt {s piece : List Char} (h : piece ∈ splitAt p s) : piece <:+: s := by
  obtain ⟨first, more, hsplit⟩ := List.exists_cons_of_ne_nil (splitAt_ne_nil (p := p) s)
  obtain ⟨hfirst, hmore⟩ := infix_of_splitAt_eq_cons hsplit
  rw [hsplit] at h
  rcases List.mem_cons.1 h with rfl | h
  · exact hfirst.isInfix
  · exact hmore piece h

theorem eq_of_splitAt_eq_singleton {s piece : List Char} (h : splitAt p s = [piece]) :
    s = piece := by
  induction s generalizing piece with
  | nil => exact (List.singleton_inj.1 h).symm ▸ rfl
  | cons d s ih =>
      obtain ⟨first, more, hsplit⟩ := List.exists_cons_of_ne_nil (splitAt_ne_nil (p := p) s)
      rw [splitAt, hsplit] at h
      split at h
      · cases h
      · cases h
        rw [ih hsplit]

/-- The last piece of several stands behind a separator. -/
theorem exists_of_splitAt_concat {s last : List Char} {upper : List (List Char)}
    (h : splitAt p s = upper ++ [last]) (hne : upper ≠ []) :
    ∃ stem c, p c = true ∧ s = stem ++ c :: last := by
  induction s generalizing upper with
  | nil =>
      obtain ⟨first, more, rfl⟩ := List.exists_cons_of_ne_nil hne
      simp [splitAt] at h
  | cons d s ih =>
      obtain ⟨first, more, hsplit⟩ := List.exists_cons_of_ne_nil (splitAt_ne_nil (p := p) s)
      obtain ⟨top, upper, rfl⟩ := List.exists_cons_of_ne_nil hne
      rw [splitAt, hsplit, List.cons_append] at h
      split at h
      · rename_i hd
        rw [← hsplit] at h
        obtain ⟨rfl, hrest⟩ := List.cons.inj h
        cases upper with
        | nil => exact ⟨[], d, hd, by rw [eq_of_splitAt_eq_singleton hrest]; rfl⟩
        | cons second upper =>
            obtain ⟨stem, c, hc, rfl⟩ := ih hrest (List.cons_ne_nil _ _)
            exact ⟨d :: stem, c, hc, rfl⟩
      · obtain ⟨rfl, rfl⟩ := List.cons.inj h
        have hlonger : splitAt p s = (first :: upper) ++ [last] := hsplit
        obtain ⟨stem, c, hc, rfl⟩ := ih hlonger (List.cons_ne_nil _ _)
        exact ⟨d :: stem, c, hc, rfl⟩

/-! ## Pieces with a separator between them -/

theorem mem_of_mem_intercalate {sep : List Char} {parts : List (List Char)} {c : Char}
    (h : c ∈ List.intercalate sep parts) : c ∈ sep ∨ ∃ part ∈ parts, c ∈ part := by
  rw [List.intercalate] at h
  induction parts with
  | nil => cases h
  | cons part rest ih =>
      cases rest with
      | nil =>
          rw [List.intersperse_singleton, List.flatten_singleton] at h
          exact .inr ⟨part, List.mem_cons_self, h⟩
      | cons next more =>
          rw [List.intersperse_cons_cons, List.flatten_cons, List.flatten_cons, List.mem_append,
            List.mem_append] at h
          rcases h with h | h | h
          · exact .inr ⟨part, List.mem_cons_self, h⟩
          · exact .inl h
          · exact (ih h).imp_right fun ⟨q, hq, hc⟩ => ⟨q, List.mem_cons_of_mem _ hq, hc⟩

theorem map_intercalate (f : Char → Char) (sep : List Char) (parts : List (List Char)) :
    (List.intercalate sep parts).map f = List.intercalate (sep.map f) (parts.map (List.map f)) := by
  induction parts with
  | nil => rfl
  | cons part rest ih =>
      cases rest with
      | nil => rw [List.intercalate_singleton, List.map_singleton, List.intercalate_singleton]
      | cons next more =>
          rw [List.map_cons] at ih
          simp only [List.intercalate_cons_cons, List.map_append, List.map_cons, ih]

end Pieces

/-! ## One separator -/

section Separator

variable {sep : Char}

theorem splitAt_of_notMem {s : List Char} (h : sep ∉ s) : splitAt (· == sep) s = [s] := by
  apply splitAt_of_none
  intro c hc
  rw [beq_eq_false_iff_ne]
  intro heq
  exact h (heq ▸ hc)

/-- The first separator ends the first piece. -/
theorem splitAt_piece {piece : List Char} (h : sep ∉ piece) (s : List Char) :
    splitAt (· == sep) (piece ++ sep :: s) = piece :: splitAt (· == sep) s := by
  rw [splitAt_append (p := (· == sep)) (beq_self_eq_true sep), splitAt_of_notMem h,
    List.singleton_append]

theorem notMem_of_mem_splitAt {s piece : List Char} (h : piece ∈ splitAt (· == sep) s) :
    sep ∉ piece := by
  intro hmem
  have hno := (mem_of_mem_splitAt h sep hmem).2
  rw [beq_self_eq_true] at hno
  cases hno

/-- Pieces without the separator come back when they are put together with it and cut again. -/
theorem splitAt_intercalate {parts : List (List Char)} (hne : parts ≠ [])
    (h : ∀ part ∈ parts, sep ∉ part) :
    splitAt (· == sep) (List.intercalate [sep] parts) = parts := by
  induction parts with
  | nil => exact absurd rfl hne
  | cons part rest ih =>
      obtain ⟨hpart, hrest⟩ := List.forall_mem_cons.1 h
      cases rest with
      | nil => rw [List.intercalate_singleton, splitAt_of_notMem hpart]
      | cons next more =>
          rw [List.intercalate_cons_cons, List.append_assoc, List.singleton_append,
            splitAt_piece hpart, ih (List.cons_ne_nil _ _) hrest]

end Separator

/-! ## Lines -/

theorem newline_notMem_lines {s line : List Char} (h : line ∈ lines s) : '\n' ∉ line := by
  unfold lines at h
  simp only at h
  split at h
  · exact notMem_of_mem_splitAt (List.dropLast_subset _ h)
  · exact notMem_of_mem_splitAt h

theorem lines_intercalate {rows : List (List Char)} (h : ∀ row ∈ rows, '\n' ∉ row)
    (hfilled : ∀ row ∈ rows, row ≠ []) : lines (List.intercalate ['\n'] rows) = rows := by
  cases rows with
  | nil => rfl
  | cons row rest =>
      unfold lines
      rw [splitAt_intercalate (List.cons_ne_nil _ _) h]
      refine if_neg fun hlast => ?_
      exact hfilled [] (List.mem_of_getLast? (beq_iff_eq.1 hlast)) rfl

/-- Lines with a line break behind each. -/
def wholeLines (lines : List (List Char)) : List Char := lines.flatMap (· ++ ['\n'])

theorem wholeLines_append (a b : List (List Char)) :
    wholeLines (a ++ b) = wholeLines a ++ wholeLines b := List.flatMap_append

theorem wholeLines_cons (line : List Char) (rest : List (List Char)) :
    wholeLines (line :: rest) = line ++ '\n' :: wholeLines rest := by
  rw [wholeLines, List.flatMap_cons, List.append_assoc, List.singleton_append]
  rfl

theorem splitAt_wholeLines {lines : List (List Char)} (h : ∀ line ∈ lines, '\n' ∉ line)
    (s : List Char) :
    splitAt (· == '\n') (wholeLines lines ++ s) = lines ++ splitAt (· == '\n') s := by
  induction lines with
  | nil => rfl
  | cons line rest ih =>
      obtain ⟨hline, hrest⟩ := List.forall_mem_cons.1 h
      rw [wholeLines_cons, List.append_assoc, List.cons_append, splitAt_piece hline, ih hrest,
        List.cons_append]

/-- A line break behind a text makes it whole lines. -/
theorem wholeLines_splitAt (s : List Char) :
    wholeLines (splitAt (· == '\n') s) = s ++ ['\n'] := by
  induction s with
  | nil => rfl
  | cons c rest ih =>
      obtain ⟨first, more, hsplit⟩ :=
        List.exists_cons_of_ne_nil (splitAt_ne_nil (p := (· == '\n')) rest)
      rw [hsplit] at ih
      rw [splitAt, hsplit, List.cons_append, ← ih]
      by_cases hc : (c == '\n') = true
      · rw [if_pos hc, wholeLines_cons, beq_iff_eq.1 hc, List.nil_append]
      · rw [if_neg hc, wholeLines_cons, wholeLines_cons, List.cons_append]

end Text
end DocPages
