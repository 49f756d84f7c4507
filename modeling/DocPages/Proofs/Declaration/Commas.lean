/-
Where a header is split at its commas.

A counter of brackets decides it, which takes every angle bracket for a bracket.  Texts that are
joined by commas are split into themselves exactly if the counter is back where it started at
each of these commas and finds no others: `splitTop_joined_iff`.
-/
import DocPages.Proofs.Declaration.Balanced

namespace DocPages
namespace Declaration

open Text

theorem foldr_consPiece_cons (s piece : List Char) (rest : List (List Char)) :
    s.foldr consPiece (piece :: rest) = (s ++ piece) :: rest := by
  induction s with
  | nil => rfl
  | cons c s ih => rw [List.foldr_cons, ih, consPiece, List.cons_append]

/-- How many brackets are open, and the quote that is open, with whether a backslash came
before. -/
structure Counter where
  depth : Nat := 0
  quote : Option (Char × Bool) := none
deriving DecidableEq, Repr

namespace Counter

/-- A comma at which a text is split. -/
def Splits (k : Counter) (c : Char) : Prop := k = {} ∧ c = ','

instance (k : Counter) (c : Char) : Decidable (k.Splits c) := inferInstanceAs (Decidable (_ ∧ _))

def step (k : Counter) (c : Char) : Counter :=
  match k.quote with
  | some (q, true) => { k with quote := some (q, false) }
  | some (q, false) =>
    if c = '\\' then { k with quote := some (q, true) }
    else if c = q then { k with quote := none }
    else k
  | none =>
    if c = '"' ∨ c = '\'' then { k with quote := some (c, false) }
    else if isOpening c then { k with depth := k.depth + 1 }
    else if isClosing c then { k with depth := k.depth - 1 }
    else k

/-- The counter behind a text, unless the text is split. -/
def after (k : Counter) : List Char → Option Counter
  | [] => some k
  | c :: s => if k.Splits c then none else (k.step c).after s

/-- The pieces of a text that this counter comes to. -/
def split (k : Counter) (s : List Char) : List (List Char) :=
  splitTopFrom ',' k.depth (k.quote.map Prod.fst) (k.quote.any Prod.snd) s

variable {k k' : Counter} {c : Char} {s t r : List Char}

theorem split_nil : k.split [] = [[]] := by rw [split, splitTopFrom]

theorem split_comma (s : List Char) : split {} (',' :: s) = [] :: split {} s := rfl

theorem split_cons (h : ¬k.Splits c) (s : List Char) :
    k.split (c :: s) = consPiece c ((k.step c).split s) := by
  obtain ⟨depth, _ | ⟨q, _ | _⟩⟩ := k
  · have hcomma : ¬(c = ',' ∧ depth = 0) := fun ⟨hc, hd⟩ => h ⟨by rw [hd], hc⟩
    simp only [split, splitTopFrom, step, Option.map_none, if_neg hcomma]
    repeat' split
    all_goals rfl
  · simp only [split, splitTopFrom, step, Option.map_some, Option.any_some, Bool.false_eq_true,
      if_false]
    repeat' split
    all_goals rfl
  · rfl

theorem after_cons (h : ¬k.Splits c) (s : List Char) : k.after (c :: s) = (k.step c).after s := by
  rw [after, if_neg h]

theorem after_append (s t : List Char) : k.after (s ++ t) = (k.after s).bind (·.after t) := by
  induction s generalizing k with
  | nil => rfl
  | cons c s ih =>
      rw [List.cons_append, after, after]
      split
      · rfl
      · exact ih

/-- What is not split is one piece with the beginning of what stands behind it. -/
theorem split_append (h : k.after s = some k') (r : List Char) :
    k.split (s ++ r) = s.foldr consPiece (k'.split r) := by
  induction s generalizing k with
  | nil =>
      cases h
      rfl
  | cons c s ih =>
      rw [after] at h
      split at h
      · cases h
      · rename_i hc
        rw [List.cons_append, split_cons hc, ih h, List.foldr_cons]

theorem split_eq_self (h : k.after s = some k') : k.split s = [s] := by
  have hsplit := split_append h []
  rwa [List.append_nil, split_nil, foldr_consPiece] at hsplit

/-- The first piece is not split.  If it is not all of the text, the counter is back at its
comma where it started. -/
theorem split_cases (k : Counter) (s : List Char) :
    ((∃ k', k.after s = some k') ∧ k.split s = [s]) ∨
      ∃ piece rest, s = piece ++ ',' :: rest ∧ k.after piece = some {} ∧
        k.split s = piece :: split {} rest := by
  induction s generalizing k with
  | nil => exact .inl ⟨⟨k, rfl⟩, split_nil⟩
  | cons c s ih =>
      by_cases hc : k.Splits c
      · obtain ⟨rfl, rfl⟩ := hc
        exact .inr ⟨[], s, rfl, rfl, split_comma s⟩
      · rw [after_cons hc, split_cons hc]
        rcases ih (k.step c) with ⟨hafter, hsplit⟩ | ⟨piece, rest, rfl, hafter, hsplit⟩
        · exact .inl ⟨hafter, by rw [hsplit]; rfl⟩
        · exact .inr ⟨c :: piece, rest, rfl, by rw [after_cons hc, hafter], by rw [hsplit]; rfl⟩

theorem after_of_notMem (h : ',' ∉ s) (k : Counter) : ∃ k', k.after s = some k' := by
  induction s generalizing k with
  | nil => exact ⟨k, rfl⟩
  | cons c s ih =>
      rw [List.mem_cons, not_or] at h
      have hc : ¬k.Splits c := fun hs => h.1 hs.2.symm
      rw [after_cons hc]
      exact ih h.2 _

/-- A text that holds no comma outside of the brackets and quotes that are open behind `k`
lengthens the last piece. -/
theorem split_pad (h : ',' ∉ t) (k : Counter) (s : List Char) :
    ∃ before last, k.split s = before ++ [last] ∧ k.split (s ++ t) = before ++ [last ++ t] := by
  induction s generalizing k with
  | nil =>
      obtain ⟨k', hk'⟩ := after_of_notMem h k
      exact ⟨[], [], split_nil, split_eq_self hk'⟩
  | cons c s ih =>
      by_cases hc : k.Splits c
      · obtain ⟨rfl, rfl⟩ := hc
        obtain ⟨before, last, hs, ht⟩ := ih {}
        exact ⟨[] :: before, last, by rw [split_comma, hs]; rfl,
          by rw [List.cons_append, split_comma, ht]; rfl⟩
      · obtain ⟨before, last, hs, ht⟩ := ih (k.step c)
        rw [List.cons_append, split_cons hc, split_cons hc, hs, ht]
        cases before with
        | nil => exact ⟨[], c :: last, rfl, rfl⟩
        | cons piece before => exact ⟨(c :: piece) :: before, last, rfl, rfl⟩

/-! ## Balanced texts -/

theorem after_escaped {quote : Char} (h : Escaped quote s) (hq : quote ≠ '\\') (depth : Nat) :
    after ⟨depth, some (quote, false)⟩ (s ++ [quote]) = some ⟨depth, none⟩ := by
  have hstep : ∀ (q : Char × Bool) (c : Char) (s : List Char),
      after ⟨depth, some q⟩ (c :: s) = (step ⟨depth, some q⟩ c).after s := by
    refine fun q c s => after_cons (fun hs => ?_) s
    cases congrArg Counter.quote hs.1
  induction h with
  | nil =>
      rw [List.nil_append, hstep]
      simp [step, after, hq]
  | @plain c s hne hb _ ih =>
      rw [List.cons_append, hstep]
      simpa [step, hne, hb] using ih
  | @escape c s _ ih =>
      have hslash : step ⟨depth, some (quote, false)⟩ '\\' = ⟨depth, some (quote, true)⟩ := rfl
      rw [List.cons_append, List.cons_append, hstep, hslash, hstep]
      exact ih

/-- In a balanced text the counter comes back to where it started. -/
theorem after_balanced {commas : Bool} (h : Balanced InQuotes commas s) {depth : Nat}
    (hd : commas = true → depth ≠ 0) : after ⟨depth, none⟩ s = some ⟨depth, none⟩ := by
  induction h generalizing depth with
  | nil => rfl
  | @code _ c s hc hcomma _ ih =>
      simp only [String.reduceToList, List.mem_cons, List.not_mem_nil, or_false, not_or] at hc
      have hkeep : ¬Splits ⟨depth, none⟩ c := fun hs => hd (hcomma hs.2) (congrArg Counter.depth hs.1)
      have hstep : step ⟨depth, none⟩ c = ⟨depth, none⟩ := by
        simp [step, isOpening, isClosing, hc]
      rw [after_cons hkeep, hstep, ih hd]
  | @literal _ t s ht _ ih =>
      obtain @⟨quote, t, hquote, ht⟩ := ht
      have hback : quote ≠ '\\' := by
        rcases hquote with rfl | rfl <;> decide
      have hkeep : ¬Splits ⟨depth, none⟩ quote := by
        rintro ⟨-, rfl⟩
        revert hquote
        decide
      have hstep : step ⟨depth, none⟩ quote = ⟨depth, some (quote, false)⟩ := if_pos hquote
      rw [List.cons_append, after_cons hkeep, hstep, after_append, after_escaped ht hback,
        Option.bind_some, ih hd]
  | @brackets _ t s opening closing hb _ _ iht ih =>
      have hopen : step ⟨depth, none⟩ opening = ⟨depth + 1, none⟩ ∧
          step ⟨depth + 1, none⟩ closing = ⟨depth, none⟩ ∧ opening ≠ ',' ∧ closing ≠ ',' := by
        simp only [bracketPairs, List.mem_cons, Prod.mk.injEq, List.not_mem_nil, or_false] at hb
        rcases hb with ⟨rfl, rfl⟩ | ⟨rfl, rfl⟩ | ⟨rfl, rfl⟩ | ⟨rfl, rfl⟩ <;>
          exact ⟨rfl, rfl, by decide, by decide⟩
      rw [after_cons fun hs => hopen.2.2.1 hs.2, hopen.1, after_append,
        iht (fun _ => Nat.succ_ne_zero depth), Option.bind_some,
        after_cons fun hs => hopen.2.2.2 hs.2, hopen.2.1, ih hd]

end Counter

/-! ## Joined texts -/

/-- Each of these texts but the last leaves the counter where it started, and none is split. -/
def Apart : List (List Char) → Prop
  | [] => True
  | [s] => ∃ k, Counter.after {} s = some k
  | s :: t :: more => Counter.after {} s = some {} ∧ Apart (t :: more)

/-- What stands in front of the texts does not matter if it is balanced. -/
theorem apart_map {α : Type} {f g : α → List Char} {items : List α}
    (h : ∀ a ∈ items, Counter.after {} (f a) = Counter.after {} (g a)) :
    Apart (items.map f) ↔ Apart (items.map g) := by
  induction items with
  | nil => exact Iff.rfl
  | cons a items ih =>
      have ha := h a List.mem_cons_self
      have hrest := ih fun b hb => h b (List.mem_cons_of_mem a hb)
      cases items with
      | nil => rw [List.map_singleton, List.map_singleton, Apart, Apart, ha]
      | cons b items =>
          rw [List.map_cons, List.map_cons] at hrest
          simp only [List.map_cons, Apart, ha, hrest]

/-- Texts in which the angle brackets match like the other brackets are apart. -/
theorem apart_of_balanced {texts : List (List Char)}
    (h : ∀ s ∈ texts, Balanced InQuotes false s) : Apart texts := by
  have hafter : ∀ s ∈ texts, Counter.after {} s = some {} := fun s hs =>
    Counter.after_balanced (h s hs) nofun
  induction texts with
  | nil => exact True.intro
  | cons s texts ih =>
      have hrest := ih (fun t ht => h t (List.mem_cons_of_mem s ht))
        fun t ht => hafter t (List.mem_cons_of_mem s ht)
      cases texts with
      | nil => exact ⟨{}, hafter s List.mem_cons_self⟩
      | cons t texts => exact ⟨hafter s List.mem_cons_self, hrest⟩

/-- Texts that are joined by commas are split into themselves exactly if they are apart. -/
theorem splitTop_joined_iff {first : List Char} {more : List (List Char)} :
    splitTop ',' (first ++ more.flatMap (',' :: ·)) = first :: more ↔ Apart (first :: more) := by
  induction more generalizing first with
  | nil =>
      rw [List.flatMap_nil, List.append_nil]
      refine ⟨fun h => ?_, fun ⟨k, hk⟩ => Counter.split_eq_self hk⟩
      rcases Counter.split_cases {} first with ⟨hafter, -⟩ | ⟨piece, rest, -, -, hsplit⟩
      · exact hafter
      · have hlen := congrArg List.length (hsplit.symm.trans h)
        rcases Counter.split_cases {} rest with ⟨-, hrest⟩ | ⟨_, _, -, -, hrest⟩ <;>
          simp [hrest] at hlen
  | cons t more ih =>
      rw [List.flatMap_cons, List.cons_append, Apart, ← ih]
      constructor
      · intro h
        rcases Counter.split_cases {} (first ++ ',' :: (t ++ more.flatMap (',' :: ·))) with
          ⟨-, hsplit⟩ | ⟨piece, rest, htext, hafter, hsplit⟩
        · exact absurd (congrArg List.length (hsplit.symm.trans h)) (by simp)
        · obtain ⟨hpiece, hrest⟩ := List.cons.inj (hsplit.symm.trans h)
          subst hpiece
          obtain ⟨-, rfl⟩ := List.cons.inj (List.append_cancel_left htext)
          exact ⟨hafter, hrest⟩
      · rintro ⟨hafter, hrest⟩
        have hsplit := Counter.split_append hafter (',' :: (t ++ more.flatMap (',' :: ·)))
        rw [Counter.split_comma, foldr_consPiece] at hsplit
        exact hsplit.trans (congrArg _ hrest)

end Declaration
end DocPages
