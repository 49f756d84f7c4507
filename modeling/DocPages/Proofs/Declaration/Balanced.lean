/-
Texts whose brackets match and whose literals are complete.

Commas and assignments are looked for outside of brackets and literals, so such a text is
passed over as a whole, whatever stands behind it.
-/
import DocPages.Proofs.Declaration.Phrase

namespace DocPages
namespace Declaration

open Text

/-! ## Balanced texts -/

def bracketPairs : List (Char × Char) := [('(', ')'), ('[', ']'), ('\x7b', '\x7d'), ('<', '>')]

/-- Characters that are neither brackets nor quotes, literals of the given form, and texts of
this form in brackets.  `commas` tells whether a comma may stand outside of brackets. -/
inductive Balanced (literal : List Char → Prop) : Bool → List Char → Prop
  | nil {commas : Bool} : Balanced literal commas []
  | code {commas : Bool} {c : Char} {s : List Char} :
      c ∉ "\"'()[]\x7b\x7d<>".toList → (c = ',' → commas = true) → Balanced literal commas s →
      Balanced literal commas (c :: s)
  | literal {commas : Bool} {t s : List Char} :
      literal t → Balanced literal commas s → Balanced literal commas (t ++ s)
  | brackets {commas : Bool} {t s : List Char} {opening closing : Char} :
      (opening, closing) ∈ bracketPairs → Balanced literal true t → Balanced literal commas s →
      Balanced literal commas (opening :: (t ++ closing :: s))

/-- What stands between two quotes when a backslash takes the next character with it. -/
inductive Escaped (quote : Char) : List Char → Prop
  | nil : Escaped quote []
  | plain {c : Char} {s : List Char} :
      c ≠ quote → c ≠ '\\' → Escaped quote s → Escaped quote (c :: s)
  | escape {c : Char} {s : List Char} : Escaped quote s → Escaped quote ('\\' :: c :: s)

/-- A literal in the text of an attribute. -/
inductive InQuotes : List Char → Prop
  | quotes {quote : Char} {s : List Char} :
      quote = '"' ∨ quote = '\'' → Escaped quote s → InQuotes (quote :: (s ++ [quote]))

namespace Balanced

variable {literal : List Char → Prop} {commas : Bool} {s t : List Char}

theorem allow (h : Balanced literal commas s) : Balanced literal true s := by
  induction h with
  | nil => exact .nil
  | code hc _ _ ih => exact .code hc (fun _ => rfl) ih
  | literal ht _ ih => exact .literal ht ih
  | brackets hb ht _ _ ih => exact .brackets hb ht ih

theorem append (hs : Balanced literal commas s) (ht : Balanced literal commas t) :
    Balanced literal commas (s ++ t) := by
  induction hs with
  | nil => exact ht
  | code hc hcomma _ ih => exact .code hc hcomma (ih ht)
  | literal hl _ ih =>
      rw [List.append_assoc]
      exact .literal hl (ih ht)
  | brackets hb hin _ _ ih =>
      rw [List.cons_append, List.append_assoc, List.cons_append]
      exact .brackets hb hin (ih ht)

theorem run (h : ∀ c ∈ s, c ∉ "\"'()[]\x7b\x7d<>,".toList) : Balanced literal commas s := by
  induction s with
  | nil => exact .nil
  | cons c s ih =>
      have hc := h c List.mem_cons_self
      simp only [String.reduceToList, List.mem_cons, List.not_mem_nil, or_false, not_or] at hc
      have hcomma : c ≠ ',' := hc.2.2.2.2.2.2.2.2.2.2
      refine .code ?_ (fun e => absurd e hcomma) (ih fun d hd => h d (List.mem_cons_of_mem _ hd))
      simp [hc]

end Balanced

/-! ## Splitting at commas -/

theorem isOpening_of_pair {opening closing : Char} (h : (opening, closing) ∈ bracketPairs) :
    isOpening opening = true ∧ isClosing closing = true := by
  simp only [bracketPairs, List.mem_cons, Prod.mk.injEq, List.not_mem_nil, or_false] at h
  rcases h with ⟨rfl, rfl⟩ | ⟨rfl, rfl⟩ | ⟨rfl, rfl⟩ | ⟨rfl, rfl⟩ <;> decide

theorem splitTopFrom_escaped {quote : Char} {s : List Char} (h : Escaped quote s) (hq : quote ≠ '\\')
    (depth : Nat) (r : List Char) :
    splitTopFrom ',' depth (some quote) false (s ++ quote :: r) =
      (s ++ [quote]).foldr consPiece (splitTopFrom ',' depth none false r) := by
  induction h with
  | nil => simp [splitTopFrom, hq]
  | plain hne hb _ ih =>
      rw [List.cons_append, List.cons_append, List.foldr_cons, ← ih]
      simp [splitTopFrom, hne, hb]
  | escape _ ih =>
      rw [List.cons_append, List.cons_append, List.cons_append, List.cons_append, List.foldr_cons,
        List.foldr_cons, ← ih]
      simp [splitTopFrom]

theorem InQuotes.splitTopFrom_append {t : List Char} (h : InQuotes t) (depth : Nat)
    (r : List Char) :
    splitTopFrom ',' depth none false (t ++ r) =
      t.foldr consPiece (splitTopFrom ',' depth none false r) := by
  cases h with
  | @quotes quote s hquote hs =>
      have hback : quote ≠ '\\' := by
        rcases hquote with rfl | rfl <;> decide
      rw [List.cons_append, List.append_assoc, List.singleton_append, List.foldr_cons,
        ← splitTopFrom_escaped hs hback, splitTopFrom, if_pos hquote]

/-- A balanced text is part of one piece, unless it has commas of its own outside of
brackets. -/
theorem Balanced.splitTopFrom_append {commas : Bool} {s : List Char}
    (h : Balanced InQuotes commas s) {depth : Nat} (hd : commas = true → depth ≠ 0)
    (r : List Char) :
    splitTopFrom ',' depth none false (s ++ r) =
      s.foldr consPiece (splitTopFrom ',' depth none false r) := by
  induction h generalizing depth r with
  | nil => rfl
  | @code _ c s hc hcomma _ ih =>
      simp only [String.reduceToList, List.mem_cons, List.not_mem_nil, or_false, not_or] at hc
      have hopen : isOpening c = false := by simp [isOpening, hc]
      have hclose : isClosing c = false := by simp [isClosing, hc]
      rw [List.cons_append, splitTopFrom_plain ⟨hc.1, hc.2.1⟩ hopen hclose
        (fun e => hd (hcomma e)), ih hd, List.foldr_cons]
  | literal ht _ ih =>
      rw [List.append_assoc, ht.splitTopFrom_append, ih hd, List.foldr_append]
  | brackets hb _ _ iht ih =>
      have hpair := isOpening_of_pair hb
      simp only [List.cons_append, List.append_assoc]
      rw [splitTopFrom_open hpair.1, iht (fun _ => Nat.succ_ne_zero _),
        splitTopFrom_close hpair.2, ih hd]
      simp only [List.foldr_cons, List.foldr_append]

theorem Balanced.unsplit {s : List Char} (h : Balanced InQuotes false s) : Unsplit s :=
  h.splitTopFrom_append nofun

end Declaration
end DocPages
