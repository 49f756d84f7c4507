/-
Where a mark stands in a text.

A character that a mark does not hold keeps its places apart: each is on one side of the
character (`eq_append_mark_iff`).  So the places of a mark in a text that is put together can be
told part by part, and line by line.
-/
import DocPages.Proofs.Text.Cutting
import DocPages.Proofs.Text.Pieces

namespace DocPages
namespace Text

/-! ## Parts of a text -/

theorem occurs_eq_true_iff {mark s : List Char} : occurs mark s = true ↔ mark <:+: s := by
  rw [occurs]
  constructor
  · intro h
    obtain ⟨⟨before, after⟩, hcut⟩ := Option.isSome_iff_exists.1 h
    exact ⟨before, after, (breakOn_eq hcut).symm⟩
  · intro h
    cases hcut : breakOn mark s with
    | none => exact absurd h (not_infix_of_breakOn hcut)
    | some cut => rfl

/-! ## A mark and a character that it does not hold -/

section Apart

variable {mark : List Char} {c : Char} (hc : c ∉ mark)
include hc

/-- The mark stands on one side of the character. -/
theorem eq_append_mark_iff {a b before after : List Char} :
    a ++ c :: b = before ++ mark ++ after ↔
      (∃ more, a = before ++ mark ++ more ∧ after = more ++ c :: b) ∨
      ∃ more, b = more ++ mark ++ after ∧ before = a ++ c :: more := by
  constructor
  · intro h
    rcases List.append_eq_append_iff.1 h with ⟨gap, hgap, hb⟩ | ⟨more, ha, hafter⟩
    · cases gap with
      | nil => exact .inl ⟨[], by rw [hgap, List.append_nil, List.append_nil], hb.symm⟩
      | cons d gap =>
          obtain ⟨rfl, rfl⟩ := List.cons.inj hb
          rcases List.append_eq_append_iff.1 hgap with ⟨rest, _, hmark⟩ | ⟨rest, hbefore, hmark⟩
          · exact absurd (hmark ▸ List.mem_append_right _ List.mem_cons_self) hc
          · cases rest with
            | nil =>
                rw [List.nil_append] at hmark
                exact absurd (hmark ▸ List.mem_cons_self) hc
            | cons e rest =>
                obtain ⟨rfl, rfl⟩ := List.cons.inj hmark
                exact .inr ⟨rest, rfl, hbefore⟩
    · exact .inl ⟨more, ha, hafter⟩
  · rintro (⟨more, rfl, rfl⟩ | ⟨more, rfl, rfl⟩) <;> simp

theorem infix_append_cons_iff {a b : List Char} :
    mark <:+: a ++ c :: b ↔ mark <:+: a ∨ mark <:+: b := by
  constructor
  · rintro ⟨before, after, h⟩
    rcases (eq_append_mark_iff hc).1 h.symm with ⟨more, ha, _⟩ | ⟨more, hb, _⟩
    · exact .inl ⟨before, more, ha.symm⟩
    · exact .inr ⟨more, after, hb.symm⟩
  · rintro (h | h)
    · exact h.trans (List.prefix_append _ _).isInfix
    · exact h.trans ((List.suffix_cons _ _).trans (List.suffix_append _ _)).isInfix

/-- In front of a character that the mark does not hold, the mark stands at once or further on. -/
theorem mark_append_cons_eq_iff {b before after : List Char} :
    mark ++ c :: b = before ++ mark ++ after ↔
      (before = [] ∧ after = c :: b) ∨
      ∃ more, b = more ++ mark ++ after ∧ before = mark ++ c :: more := by
  rw [eq_append_mark_iff hc]
  refine or_congr_left ?_
  constructor
  · rintro ⟨more, hmark, rfl⟩
    have hlength := congrArg List.length hmark
    simp only [List.length_append] at hlength
    have hbefore : before = [] := List.eq_nil_of_length_eq_zero (by omega)
    have hmore : more = [] := List.eq_nil_of_length_eq_zero (by omega)
    exact ⟨hbefore, by rw [hmore, List.nil_append]⟩
  · rintro ⟨rfl, rfl⟩
    exact ⟨[], by simp, rfl⟩

variable {d : Char} (hd : d ∉ mark)
include hd

/-- The places of the mark in a text that is known up to the first of them. -/
theorem eq_append_first_mark_iff {a b before after : List Char} (ha : ¬ mark <:+: a) :
    a ++ c :: (mark ++ d :: b) = before ++ mark ++ after ↔
      (before = a ++ [c] ∧ after = d :: b) ∨
      ∃ more, b = more ++ mark ++ after ∧ before = a ++ c :: (mark ++ d :: more) := by
  rw [eq_append_mark_iff hc]
  constructor
  · rintro (⟨more, rfl, _⟩ | ⟨front, hfront, rfl⟩)
    · exact absurd ⟨before, more, rfl⟩ ha
    · rcases (mark_append_cons_eq_iff hd).1 hfront with ⟨rfl, rfl⟩ | ⟨more, hb, rfl⟩
      · exact .inl ⟨rfl, rfl⟩
      · exact .inr ⟨more, hb, rfl⟩
  · rintro (⟨rfl, rfl⟩ | ⟨more, rfl, rfl⟩)
    · exact .inr ⟨[], rfl, rfl⟩
    · exact .inr ⟨mark ++ d :: more, by simp, rfl⟩

end Apart

/-! ## The pieces between separators -/

section Pieces

variable {p : Char → Bool}

theorem filter_occurs_splitAt {mark s : List Char} (h : ¬ mark <:+: s) :
    (splitAt p s).filter (occurs mark) = [] := by
  rw [List.filter_eq_nil_iff]
  intro piece hpiece hoccurs
  exact h ((occurs_eq_true_iff.1 hoccurs).trans (infix_of_mem_splitAt hpiece))

theorem filter_occurs_line {mark s : List Char} (h : ∀ c ∈ s, p c = false)
    (hmark : mark <:+: s) : (splitAt p s).filter (occurs mark) = [s] := by
  rw [splitAt_of_none h, List.filter_cons_of_pos (occurs_eq_true_iff.2 hmark), List.filter_nil]

end Pieces

end Text
end DocPages
