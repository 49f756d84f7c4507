/-
Headers made of words, marks and brackets that match.

Each function that reads a header is told by one induction over such a text: which
identifiers it has, that it declares no type, and where it is split.
-/
import DocPages.Declaration.AttributeList
import DocPages.Proofs.Declaration.Printed

namespace DocPages
namespace Declaration

open Text

/-! ## Header characters -/

def isHeaderChar (c : Char) : Bool := isIdentChar c || " .?,:()<>[]".toList.contains c

theorem toNat_lt_of_isHeaderChar {c : Char} (h : isHeaderChar c = true) : c.toNat < 128 := by
  rw [isHeaderChar, isIdentChar, Char.isAlphanum] at h
  delta Char.isAlpha Char.isUpper Char.isLower Char.isDigit at h
  simp only [Bool.or_eq_true, Bool.and_eq_true, decide_eq_true_eq, beq_iff_eq,
    ge_iff_le, UInt32.le_iff_toNat_le] at h
  rcases h with (h | rfl) | h
  · simp at h
    omega
  · decide
  · have hall : (" .?,:()<>[]".toList.all fun d => decide (d.toNat < 128)) = true := by decide
    exact of_decide_eq_true (List.all_eq_true.1 hall c (List.contains_iff_mem.1 h))

/-- What holds of the header characters in the table holds of all. -/
theorem of_isHeaderChar {p : Char → Bool}
    (hp : (List.range 128).all (fun n => !isHeaderChar (Char.ofNat n) || p (Char.ofNat n)) = true)
    {c : Char} (h : isHeaderChar c = true) : p c = true := by
  have hc := List.all_eq_true.1 hp c.toNat (List.mem_range.2 (toNat_lt_of_isHeaderChar h))
  rw [Char.ofNat_toNat, h] at hc
  simpa using hc

theorem isHeaderChar_of_isIdentChar {c : Char} (h : isIdentChar c = true) :
    isHeaderChar c = true := by
  rw [isHeaderChar, h, Bool.true_or]

theorem isIdentChar_of_isIdentStart {c : Char} (h : isIdentStart c = true) :
    isIdentChar c = true := by
  simp only [isIdentStart, isIdentChar, Char.isAlphanum, Bool.or_eq_true] at h ⊢
  rcases h with h | h
  · exact Or.inl (Or.inl h)
  · exact Or.inr h

theorem ne_of_isIdentChar {c d : Char} (hc : isIdentChar c = true) (hd : isIdentChar d = false) :
    c ≠ d := by
  rintro rfl
  rw [hc] at hd
  cases hd

theorem beq_of_isIdentStart {c d : Char} (hc : isIdentStart c = true)
    (hd : isIdentStart d = false) : (c == d) = false := by
  apply beq_false_of_ne
  rintro rfl
  rw [hc] at hd
  cases hd

theorem isWordChar_of_isIdentChar {c : Char} (h : isIdentChar c = true) : isWordChar c = true := by
  have := of_isHeaderChar (p := fun c => !isIdentChar c || isWordChar c) (by decide +kernel)
    (isHeaderChar_of_isIdentChar h)
  simpa [h] using this

theorem not_isBlank_of_isIdentChar {c : Char} (h : isIdentChar c = true) : isBlank c = false := by
  have := of_isHeaderChar (p := fun c => !isIdentChar c || !isBlank c) (by decide +kernel)
    (isHeaderChar_of_isIdentChar h)
  simpa [h] using this

/-! ## Phrases -/

/-- The marks of a type outside of brackets, and the brackets that it may open. -/
def typeMarks : List Char := ".?<[".toList

def listMarks : List Char := ',' :: typeMarks

def headerMarks : List Char := ':' :: '(' :: listMarks

/-- Words that are not banned, the given marks, single spaces, and lists of such texts in
brackets. -/
inductive Phrase (banned : List (List Char)) : List Char → List Char → Prop
  | nil {marks : List Char} : Phrase banned marks []
  | word {marks w s : List Char} :
      IsWord w → w ∉ banned → Stops isIdentChar s → Phrase banned marks s →
      Phrase banned marks (w ++ s)
  | mark {marks s : List Char} {c : Char} :
      c ∈ marks → c ∈ ".?,:".toList → Phrase banned marks s → Phrase banned marks (c :: s)
  | space {marks s : List Char} :
      Stops (· == ' ') s → Phrase banned marks s → Phrase banned marks (' ' :: s)
  | brackets {marks t s : List Char} {opening closing : Char} :
      opening ∈ marks → (opening, closing) ∈ [('(', ')'), ('<', '>'), ('[', ']')] →
      Phrase banned listMarks t → Phrase banned marks s →
      Phrase banned marks (opening :: (t ++ closing :: s))

namespace IsWord

variable {w : List Char} (h : IsWord w)
include h

theorem exists_cons : ∃ c rest, w = c :: rest ∧ isIdentStart c = true ∧
    ∀ d ∈ rest, isIdentChar d = true := by
  cases w with
  | nil => exact absurd h.starts (by decide)
  | cons c rest =>
      exact ⟨c, rest, rfl, h.starts, fun d hd => h.inside d (List.mem_cons_of_mem _ hd)⟩

theorem ne_nil : w ≠ [] := by
  obtain ⟨c, rest, rfl, -⟩ := h.exists_cons
  exact List.cons_ne_nil c rest

/-- The word at the front of a text is told by its identifier characters. -/
theorem takeWhile_append {r : List Char} (hr : Stops isIdentChar r) :
    (w ++ r).takeWhile isIdentChar = w :=
  takeWhile_append_stops h.inside hr

theorem dropWhile_append {r : List Char} (hr : Stops isIdentChar r) :
    (w ++ r).dropWhile isIdentChar = r :=
  dropWhile_append_stops h.inside hr

end IsWord

namespace Phrase

variable {banned : List (List Char)} {marks s : List Char}

theorem mono {marks' : List Char} (hm : marks ⊆ marks') (h : Phrase banned marks s) :
    Phrase banned marks' s := by
  induction h with
  | nil => exact .nil
  | word hw hb hs _ ih => exact .word hw hb hs (ih hm)
  | mark hc hc' _ ih => exact .mark (hm hc) hc' (ih hm)
  | space hs _ ih => exact .space hs (ih hm)
  | brackets ho hb ht _ _ ih => exact .brackets (hm ho) hb ht (ih hm)

theorem relax {banned' : List (List Char)} (hb : banned' ⊆ banned) (h : Phrase banned marks s) :
    Phrase banned' marks s := by
  induction h with
  | nil => exact .nil
  | word hw hfree hs _ ih => exact .word hw (fun hmem => hfree (hb hmem)) hs ih
  | mark hc hc' _ ih => exact .mark hc hc' ih
  | space hs _ ih => exact .space hs ih
  | brackets ho hbr _ _ iht ih => exact .brackets ho hbr iht ih

/-- The characters of a phrase. -/
theorem mem (h : Phrase banned marks s) {c : Char} (hc : c ∈ s) :
    isIdentChar c = true ∨ c ∈ marks ∨ c ∈ " .?,<>[])".toList := by
  induction h with
  | nil => cases hc
  | word hw _ _ _ ih =>
      rcases List.mem_append.1 hc with hc | hc
      · exact Or.inl (hw.inside c hc)
      · exact ih hc
  | mark hd _ _ ih =>
      rcases List.mem_cons.1 hc with rfl | hc
      · exact Or.inr (Or.inl hd)
      · exact ih hc
  | space _ _ ih =>
      rcases List.mem_cons.1 hc with rfl | hc
      · exact Or.inr (Or.inr (by decide))
      · exact ih hc
  | @brackets _ t s opening closing ho hb _ _ iht ih =>
      have hclose : closing ∈ " .?,<>[])".toList := by
        simp only [List.mem_cons, Prod.mk.injEq, List.not_mem_nil, or_false] at hb
        rcases hb with ⟨-, rfl⟩ | ⟨-, rfl⟩ | ⟨-, rfl⟩ <;> decide
      rcases List.mem_cons.1 hc with rfl | hc
      · exact Or.inr (Or.inl ho)
      rcases List.mem_append.1 hc with hc | hc
      · rcases iht hc with hi | hi | hi
        · exact Or.inl hi
        · simp only [listMarks, typeMarks, String.reduceToList, List.mem_cons, List.not_mem_nil,
            or_false] at hi
          rcases hi with rfl | rfl | rfl | rfl | rfl <;> exact Or.inr (Or.inr (by decide))
        · exact Or.inr (Or.inr hi)
      rcases List.mem_cons.1 hc with rfl | hc
      · exact Or.inr (Or.inr hclose)
      · exact ih hc

/-- A character that neither words nor marks have does not occur. -/
theorem notMem (h : Phrase banned marks s) {c : Char} (hi : isIdentChar c = false)
    (hm : c ∉ marks) (ho : c ∉ " .?,<>[])".toList) : c ∉ s := by
  intro hc
  rcases h.mem hc with h | h | h
  · rw [hi] at h
    cases h
  · exact hm h
  · exact ho h

end Phrase

/-! ## Identifiers -/

theorem pieces_word {w s : List Char} (hw : IsWord w) (hs : Stops isIdentChar s) :
    pieces (w ++ s) = .name w :: pieces s := by
  obtain ⟨c, rest, rfl, hc, hrest⟩ := hw.exists_cons
  rw [List.cons_append, pieces, if_pos (by rw [hc, Bool.true_or]),
    takeWhile_append_stops hrest hs, dropWhile_append_stops hrest hs]

theorem pieces_other {c : Char} (hc : isIdentStart c = false) (ha : c ≠ '@') (s : List Char) :
    pieces (c :: s) = .other c :: pieces s := by
  rw [pieces, if_neg]
  simp [hc, ha]

theorem flatMap_chars_pieces (s : List Char) : (pieces s).flatMap Piece.chars = s := by
  fun_induction pieces s with
  | case1 => rfl
  | case2 c rest _ _ ih =>
      rw [List.flatMap_cons, ih, Piece.chars, List.cons_append, List.takeWhile_append_dropWhile]
  | case3 c rest _ _ ih => rw [List.flatMap_cons, ih, Piece.chars, List.singleton_append]

theorem identifiers_word {w s : List Char} (hw : IsWord w) (hs : Stops isIdentChar s) :
    identifiers (w ++ s) = w :: identifiers s := by
  rw [identifiers, pieces_word hw hs]
  rfl

theorem identifiers_other {c : Char} (hc : isIdentStart c = false) (ha : c ≠ '@')
    (s : List Char) : identifiers (c :: s) = identifiers s := by
  rw [identifiers, pieces_other hc ha]
  rfl

theorem identifiers_nil : identifiers [] = [] := by
  rw [identifiers, pieces]
  rfl

theorem identifiers_isWord {w : List Char} (hw : IsWord w) : identifiers w = [w] := by
  have := identifiers_word hw (stops_nil _)
  rwa [List.append_nil, identifiers_nil] at this

theorem pieces_append {r : List Char} (hr : Stops isIdentChar r) (s : List Char) :
    pieces (s ++ r) = pieces s ++ pieces r := by
  have hhead : ∀ s, (s ++ r).head?.any isIdentStart = s.head?.any isIdentStart := by
    intro s
    cases s with
    | cons => rfl
    | nil =>
        cases r with
        | nil => rfl
        | cons c r =>
            have hc : isIdentStart c = false := by
              rw [Bool.eq_false_iff]
              intro hstart
              have := hr c rfl
              rw [isIdentChar_of_isIdentStart hstart] at this
              cases this
            exact hc
  fun_induction pieces s with
  | case1 => rfl
  | case2 c rest _ hc ih =>
      have hrest := takeWhile_append_of_stops hr rest
      rw [List.cons_append, pieces, hhead, if_pos hc, hrest.1, hrest.2, ih, List.cons_append]
  | case3 c rest _ hc ih =>
      rw [List.cons_append, pieces, hhead, if_neg hc, ih, List.cons_append]

theorem identifiers_append {r : List Char} (hr : Stops isIdentChar r) (s : List Char) :
    identifiers (s ++ r) = identifiers s ++ identifiers r := by
  rw [identifiers, pieces_append hr, List.filterMap_append]
  rfl

/-- The marks are no part of an identifier. -/
theorem of_mark {c : Char} (hc : c ∈ " .?,:()<>[]".toList) :
    isIdentStart c = false ∧ isIdentChar c = false ∧ c ≠ '@' := by
  simp only [String.reduceToList, List.mem_cons, List.not_mem_nil, or_false] at hc
  rcases hc with rfl | rfl | rfl | rfl | rfl | rfl | rfl | rfl | rfl | rfl | rfl <;> decide

theorem bracket_marks {opening closing : Char}
    (h : (opening, closing) ∈ [('(', ')'), ('<', '>'), ('[', ']')]) :
    opening ∈ " .?,:()<>[]".toList ∧ closing ∈ " .?,:()<>[]".toList := by
  simp only [List.mem_cons, Prod.mk.injEq, List.not_mem_nil, or_false] at h
  rcases h with ⟨rfl, rfl⟩ | ⟨rfl, rfl⟩ | ⟨rfl, rfl⟩ <;> decide

theorem header_mark {c : Char} (h : c ∈ ".?,:".toList) : c ∈ " .?,:()<>[]".toList := by
  simp only [String.reduceToList, List.mem_cons, List.not_mem_nil, or_false] at h
  rcases h with rfl | rfl | rfl | rfl <;> decide

namespace Phrase

variable {banned : List (List Char)} {marks s : List Char}

theorem notMem_banned (h : Phrase banned marks s) {w : List Char} (hw : w ∈ identifiers s) :
    w ∉ banned := by
  induction h with
  | nil =>
      rw [identifiers_nil] at hw
      cases hw
  | word hword hfree hs _ ih =>
      rw [identifiers_word hword hs, List.mem_cons] at hw
      rcases hw with rfl | hw
      · exact hfree
      · exact ih hw
  | mark _ hc _ ih =>
      have hmark := of_mark (header_mark hc)
      rw [identifiers_other hmark.1 hmark.2.2] at hw
      exact ih hw
  | space _ _ ih =>
      rw [identifiers_other rfl (by decide)] at hw
      exact ih hw
  | brackets _ hb _ _ iht ih =>
      have hopen := of_mark (bracket_marks hb).1
      have hclose := of_mark (bracket_marks hb).2
      rw [identifiers_other hopen.1 hopen.2.2, identifiers_append (stops_cons hclose.2.1 _),
        identifiers_other hclose.1 hclose.2.2, List.mem_append] at hw
      rcases hw with hw | hw
      · exact iht hw
      · exact ih hw

theorem not_hasWord (h : Phrase banned marks s) (word : String) (hw : word.toList ∈ banned) :
    hasWord word s = false := by
  rw [hasWord, Bool.eq_false_iff, ne_eq, List.contains_iff_mem]
  exact fun hmem => h.notMem_banned hmem hw

end Phrase

/-! ## Type keywords -/

def typeWords : List (List Char) :=
  ["class", "struct", "interface", "enum", "record"].map String.toList

theorem readTypeName_eq_none {s : List Char} (h : Stops isBlank s) : readTypeName s = none := by
  rw [readTypeName, if_neg]
  cases s with
  | nil => simp
  | cons c s => simp [h c rfl]

section Run

variable {k : Char → Bool} (hk : ∀ c, k c = true → isBlank c = false)
variable {w s : List Char} (hw : ∀ c ∈ w, k c = true) (hs : Stops k s)
include hk hw hs

/-- A keyword is a whole word, and blanks stand behind it. -/
theorem readTyped_eq_none {first : String} (hfirst : ∀ c ∈ first.toList, k c = true)
    (hne : w = first.toList → Stops isBlank s) (kind : DeclKind) (second : Option String) :
    readTyped kind first second (w ++ s) = none := by
  cases hstrip : stripStart? first.toList (w ++ s) with
  | none => simp [readTyped, hstrip]
  | some rest =>
      have hrest : Stops isBlank rest := by
        intro c hc
        -- Otherwise the word at the front would end with the keyword.
        cases hb : isBlank c with
        | false => rfl
        | true =>
            have hstop : Stops k rest := by
              intro d hd
              rw [hc] at hd
              cases hd
              cases hi : k c with
              | false => rfl
              | true =>
                  rw [hk c hi] at hb
                  cases hb
            have hword := takeWhile_append_stops hw hs
            rw [stripStart?_eq_some.1 hstrip, takeWhile_append_stops hfirst hstop] at hword
            have htext := stripStart?_eq_some.1 hstrip
            rw [hword] at htext
            have := hne hword.symm c (List.append_cancel_left htext ▸ hc)
            rw [hb] at this
            cases this
      cases second with
      | none => simp [readTyped, hstrip, readTypeName_eq_none hrest]
      | some word =>
          have : rest.head?.any isBlank = false := by
            cases rest with
            | nil => rfl
            | cons c rest => exact hrest c rfl
          simp [readTyped, hstrip, this]

theorem readType_run (hkeys : ∀ key ∈ typeWords, ∀ c ∈ key, k c = true)
    (hne : w ∈ typeWords → Stops isBlank s) : readType (w ++ s) = none := by
  simp only [typeWords, List.map_cons, List.map_nil, List.mem_cons, List.not_mem_nil, or_false,
    forall_eq_or_imp, forall_eq] at hkeys
  obtain ⟨hclass, hstruct, hinterface, henum, hrecord⟩ := hkeys
  have hnone : ∀ (first : String), first.toList ∈ typeWords →
      (∀ c ∈ first.toList, k c = true) → ∀ kind second,
        readTyped kind first second (w ++ s) = none := fun first hmem hfirst =>
    readTyped_eq_none hk hw hs hfirst fun e => hne (e ▸ hmem)
  rw [readType, hnone _ (by decide) hclass, hnone _ (by decide) hstruct,
    hnone _ (by decide) hinterface, hnone _ (by decide) henum, hnone _ (by decide) hrecord,
    hnone _ (by decide) hrecord, hnone _ (by decide) hrecord]
  rfl

end Run

theorem readType_word {w s : List Char} (hw : IsWord w) (hs : Stops isIdentChar s)
    (hne : w ∉ typeWords) : readType (w ++ s) = none :=
  readType_run (fun _ => not_isBlank_of_isIdentChar) hw.inside hs (by decide)
    fun hmem => absurd hmem hne

/-- A keyword starts with its first letter. -/
theorem readType_other {c : Char} (hc : c ∉ "csier".toList) (s : List Char) :
    readType (c :: s) = none := by
  simp only [String.reduceToList, List.mem_cons, List.not_mem_nil, or_false, not_or] at hc
  have hnone : ∀ (kind : DeclKind) (word : String) (second : Option String),
      word.toList.head?.any (· ≠ c) = true → readTyped kind word second (c :: s) = none := by
    intro kind word second hword
    cases hchars : word.toList with
    | nil =>
        rw [hchars] at hword
        cases hword
    | cons d more =>
        rw [hchars] at hword
        have hd : d ≠ c := by simpa using hword
        simp [readTyped, hchars, stripStart?_cons_ne hd]
  simp only [readType]
  rw [hnone, hnone, hnone, hnone, hnone, hnone, hnone]
  · rfl
  all_goals simp [Ne.symm, hc]

theorem readType_mark {c : Char} (hc : c ∈ " .?,:()<>[]".toList) (s : List Char) :
    readType (c :: s) = none := by
  apply readType_other
  simp only [String.reduceToList, List.mem_cons, List.not_mem_nil, or_false] at hc
  rcases hc with rfl | rfl | rfl | rfl | rfl | rfl | rfl | rfl | rfl | rfl | rfl <;> decide

theorem findTypeFrom_cons_of_none {prev : Option Char} {c : Char} {s : List Char}
    (h : prev.any isWordChar = true ∨ readType (c :: s) = none)
    (hs : findTypeFrom (some c) s = none) : findTypeFrom prev (c :: s) = none := by
  rw [findTypeFrom, hs]
  rcases h with h | h <;> simp [h]

/-- Inside of a word no keyword starts. -/
theorem findTypeFrom_inside {run s : List Char} (hrun : ∀ c ∈ run, isWordChar c = true)
    (hs : ∀ prev, findTypeFrom prev s = none) {c : Char} (hc : isWordChar c = true) :
    findTypeFrom (some c) (run ++ s) = none := by
  induction run generalizing c with
  | nil => exact hs _
  | cons d run ih =>
      rw [List.cons_append]
      exact findTypeFrom_cons_of_none (Or.inl hc)
        (ih (fun e he => hrun e (List.mem_cons_of_mem _ he)) (hrun d List.mem_cons_self))

theorem Phrase.findTypeFrom_eq_none {banned : List (List Char)} {marks s : List Char}
    (h : Phrase banned marks s) (hb : ∀ w ∈ typeWords, w ∈ banned) {r : List Char}
    (hr : Stops isIdentChar r) (hnone : ∀ prev, findTypeFrom prev r = none) (prev : Option Char) :
    findTypeFrom prev (s ++ r) = none := by
  induction h generalizing prev r with
  | nil => exact hnone prev
  | @word _ w s hw hfree hs _ ih =>
      -- A keyword could start only with the word, and then it would be the word.
      have hread := readType_word hw (stops_append hs hr) (fun hmem => hfree (hb w hmem))
      obtain ⟨c, rest, rfl, hc, hrest⟩ := hw.exists_cons
      rw [List.append_assoc, List.cons_append]
      exact findTypeFrom_cons_of_none (Or.inr hread)
        (findTypeFrom_inside (fun d hd => isWordChar_of_isIdentChar (hrest d hd))
          (fun prev => ih hr hnone prev)
          (isWordChar_of_isIdentChar (isIdentChar_of_isIdentStart hc)))
  | mark _ hc _ ih =>
      exact findTypeFrom_cons_of_none (Or.inr (readType_mark (header_mark hc) _)) (ih hr hnone _)
  | space _ _ ih =>
      exact findTypeFrom_cons_of_none (Or.inr (readType_mark (by decide) _)) (ih hr hnone _)
  | @brackets _ t s opening closing _ hbr _ _ iht ih =>
      have hclose := of_mark (bracket_marks hbr).2
      simp only [List.cons_append, List.append_assoc]
      apply findTypeFrom_cons_of_none (Or.inr (readType_mark (bracket_marks hbr).1 _))
      apply iht (stops_cons hclose.2.1 _)
      intro prev
      exact findTypeFrom_cons_of_none (Or.inr (readType_mark (bracket_marks hbr).2 _))
        (ih hr hnone _)

/-- A header without a type keyword declares no type. -/
theorem Phrase.readTypeHeader_eq_none {banned : List (List Char)} {marks s : List Char}
    (h : Phrase banned marks s) (hb : ∀ w ∈ typeWords, w ∈ banned) : readTypeHeader s = none := by
  have := h.findTypeFrom_eq_none hb (stops_nil _) (fun _ => rfl) none
  rw [List.append_nil] at this
  rw [readTypeHeader, this]

/-! ## Splitting at commas -/

section Split

variable {depth : Nat} {c : Char} {s : List Char}

theorem splitTopFrom_open (h : isOpening c = true) :
    splitTopFrom ',' depth none false (c :: s) =
      consPiece c (splitTopFrom ',' (depth + 1) none false s) := by
  have hq : ¬ (c = '"' ∨ c = '\'') := by
    rintro (rfl | rfl) <;> exact absurd h (by decide)
  rw [splitTopFrom, if_neg hq, if_pos h]

theorem splitTopFrom_close (h : isClosing c = true) :
    splitTopFrom ',' (depth + 1) none false (c :: s) =
      consPiece c (splitTopFrom ',' depth none false s) := by
  have hq : ¬ (c = '"' ∨ c = '\'') := by
    rintro (rfl | rfl) <;> exact absurd h (by decide)
  have ho : ¬ isOpening c = true := by
    intro ho
    simp only [isOpening, isClosing, String.reduceToList, List.contains_cons, List.contains_nil,
      Bool.or_false, Bool.or_eq_true, beq_iff_eq] at ho h
    rcases ho with rfl | rfl | rfl | rfl <;> simp at h
  rw [splitTopFrom, if_neg hq, if_neg ho, if_pos h]
  rfl

theorem splitTopFrom_plain (hq : c ≠ '"' ∧ c ≠ '\'') (ho : isOpening c = false)
    (hc : isClosing c = false) (hs : c = ',' → depth ≠ 0) :
    splitTopFrom ',' depth none false (c :: s) =
      consPiece c (splitTopFrom ',' depth none false s) := by
  rw [splitTopFrom, if_neg (by simp [hq]), if_neg (by simp [ho]), if_neg (by simp [hc]), if_neg]
  rintro ⟨rfl, hd⟩
  exact hs rfl hd

end Split

theorem of_isIdentChar {c : Char} (h : isIdentChar c = true) :
    (c ≠ '"' ∧ c ≠ '\'') ∧ isOpening c = false ∧ isClosing c = false ∧ c ≠ ',' := by
  have := of_isHeaderChar (p := fun c => !isIdentChar c ||
    (c != '"' && c != '\'' && !isOpening c && !isClosing c && c != ',')) (by decide +kernel)
    (isHeaderChar_of_isIdentChar h)
  simp [h] at this
  simp [this]

/-- A run of identifier characters is part of one piece. -/
theorem splitTopFrom_run {run : List Char} (hrun : ∀ c ∈ run, isIdentChar c = true) (depth : Nat)
    (s : List Char) :
    splitTopFrom ',' depth none false (run ++ s) =
      run.foldr consPiece (splitTopFrom ',' depth none false s) := by
  induction run with
  | nil => rfl
  | cons c run ih =>
      have hc := of_isIdentChar (hrun c List.mem_cons_self)
      rw [List.cons_append, splitTopFrom_plain hc.1 hc.2.1 hc.2.2.1 (fun e => absurd e hc.2.2.2),
        ih (fun d hd => hrun d (List.mem_cons_of_mem _ hd)), List.foldr_cons]

/-- A phrase is part of one piece, unless it has commas of its own outside of
brackets. -/
theorem Phrase.splitTopFrom_append {banned : List (List Char)} {marks s : List Char}
    (h : Phrase banned marks s) {depth : Nat} (hd : ',' ∈ marks → depth ≠ 0) (r : List Char) :
    splitTopFrom ',' depth none false (s ++ r) =
      s.foldr consPiece (splitTopFrom ',' depth none false r) := by
  induction h generalizing depth r with
  | nil => rfl
  | word hw _ _ _ ih =>
      rw [List.append_assoc, splitTopFrom_run hw.inside, ih hd, List.foldr_append]
  | @mark marks s c hm hc _ ih =>
      have hplain : (c ≠ '"' ∧ c ≠ '\'') ∧ isOpening c = false ∧ isClosing c = false := by
        simp only [String.reduceToList, List.mem_cons, List.not_mem_nil, or_false] at hc
        rcases hc with rfl | rfl | rfl | rfl <;> decide
      rw [List.cons_append, splitTopFrom_plain hplain.1 hplain.2.1 hplain.2.2
        (fun e => hd (e ▸ hm)), ih hd, List.foldr_cons]
  | space _ _ ih =>
      rw [List.cons_append, splitTopFrom_plain (by decide) rfl rfl (fun e => absurd e (by decide)),
        ih hd, List.foldr_cons]
  | @brackets _ t s opening closing _ hb _ _ iht ih =>
      have hpair : isOpening opening = true ∧ isClosing closing = true := by
        simp only [List.mem_cons, Prod.mk.injEq, List.not_mem_nil, or_false] at hb
        rcases hb with ⟨rfl, rfl⟩ | ⟨rfl, rfl⟩ | ⟨rfl, rfl⟩ <;> decide
      simp only [List.cons_append, List.append_assoc]
      rw [splitTopFrom_open hpair.1, iht (fun _ => Nat.succ_ne_zero _),
        splitTopFrom_close hpair.2, ih hd]
      simp only [List.foldr_cons, List.foldr_append]

theorem foldr_consPiece (s : List Char) (rest : List (List Char)) :
    s.foldr consPiece ([] :: rest) = s :: rest := by
  induction s with
  | nil => rfl
  | cons c s ih => rw [List.foldr_cons, ih, consPiece]

/-- A text that is part of one piece, whatever stands behind it. -/
def Unsplit (s : List Char) : Prop :=
  ∀ r, splitTopFrom ',' 0 none false (s ++ r) =
    s.foldr consPiece (splitTopFrom ',' 0 none false r)

theorem Unsplit.append {s t : List Char} (hs : Unsplit s) (ht : Unsplit t) : Unsplit (s ++ t) := by
  intro r
  rw [List.append_assoc, hs, ht, List.foldr_append]

theorem Unsplit.splitTop_eq {s : List Char} (h : Unsplit s) : splitTop ',' s = [s] := by
  have hsplit := h []
  rw [List.append_nil] at hsplit
  exact hsplit.trans (foldr_consPiece s [])

theorem unsplit_blank {c : Char} (hc : isBlank c = true) : Unsplit [c] := by
  have htable : ∀ d ∈ "\"',([\x7b<)]\x7d>".toList, isBlank d = false := by decide +kernel
  have hother : c ∉ "\"',([\x7b<)]\x7d>".toList := fun hmem => by
    rw [htable c hmem] at hc
    cases hc
  simp only [String.reduceToList, List.mem_cons, List.not_mem_nil, or_false, not_or] at hother
  intro r
  rw [List.singleton_append, splitTopFrom_plain ⟨hother.1, hother.2.1⟩ (by simp [isOpening, hother])
    (by simp [isClosing, hother]) (fun e => absurd e hother.2.2.1)]
  rfl

theorem Unsplit.pad {s gap : List Char} (hgap : allBlank gap = true) (h : Unsplit s) :
    Unsplit (gap ++ s) := by
  induction gap with
  | nil => exact h
  | cons c gap ih =>
      rw [allBlank, List.all_cons, Bool.and_eq_true] at hgap
      exact (unsplit_blank hgap.1).append (ih hgap.2)

theorem Phrase.unsplit {banned : List (List Char)} {s : List Char}
    (h : Phrase banned typeMarks s) : Unsplit s :=
  h.splitTopFrom_append (by decide)

/-- Texts joined by commas are split into themselves, with the spaces after the commas. -/
theorem splitTop_joined {first : List Char} {rest : List (List Char)} (hfirst : Unsplit first)
    (hrest : ∀ s ∈ rest, Unsplit s) :
    splitTop ',' (first ++ rest.flatMap fun s => ", ".toList ++ s) =
      first :: rest.map (' ' :: ·) := by
  induction rest generalizing first with
  | nil =>
      rw [List.flatMap_nil, List.append_nil]
      exact hfirst.splitTop_eq
  | cons s rest ih =>
      have hrest' := ih (hrest s List.mem_cons_self) fun t ht => hrest t (List.mem_cons_of_mem _ ht)
      have hcut : splitTopFrom ',' 0 none false
          (", ".toList ++ (s ++ rest.flatMap fun s => ", ".toList ++ s)) =
            [] :: consPiece ' ' (splitTop ',' (s ++ rest.flatMap fun s => ", ".toList ++ s)) := rfl
      rw [splitTop, hfirst, List.flatMap_cons, List.append_assoc, hcut, hrest', foldr_consPiece]
      rfl

/-! ## Attribute sections -/

theorem afterLiteral?_header {c : Char} (h : isHeaderChar c = true) (s : List Char) :
    afterLiteral? (c :: s) = none := by
  have := of_isHeaderChar (p := fun c => c != '\'' && c != '"' && !isStringMark c)
    (by decide +kernel) h
  simp only [Bool.and_eq_true, bne_iff_ne, Bool.not_eq_true'] at this
  exact afterLiteral?_of_plain this.1.1 this.1.2 this.2 s

theorem toSectionEnd_step {c : Char} (h : isHeaderChar c = true) (opens : List Char) (depth : Nat)
    (s : List Char) :
    toSectionEnd opens depth (c :: s) =
      if c = '[' then toSectionEnd opens (depth + 1) s
      else if c = ']' then
        match depth with
        | 0 => .ok (c :: s)
        | depth + 1 => toSectionEnd opens depth s
      else toSectionEnd opens depth s := by
  have hl := afterLiteral?_header h s
  rw [toSectionEnd.eq_def]
  simp only
  split
  · simp_all
  · simp_all
  · cases depth <;> rfl

theorem toSectionEnd_plain {c : Char} (h : isHeaderChar c = true) (ho : c ≠ '[') (hc : c ≠ ']')
    (opens : List Char) (depth : Nat) (s : List Char) :
    toSectionEnd opens depth (c :: s) = toSectionEnd opens depth s := by
  rw [toSectionEnd_step h, if_neg ho, if_neg hc]

theorem toSectionEnd_run {run : List Char} (hrun : ∀ c ∈ run, isIdentChar c = true)
    (opens : List Char) (depth : Nat) (s : List Char) :
    toSectionEnd opens depth (run ++ s) = toSectionEnd opens depth s := by
  induction run with
  | nil => rfl
  | cons c run ih =>
      have hc := hrun c List.mem_cons_self
      rw [List.cons_append, toSectionEnd_plain (isHeaderChar_of_isIdentChar hc)
        (ne_of_isIdentChar hc rfl) (ne_of_isIdentChar hc rfl),
        ih fun d hd => hrun d (List.mem_cons_of_mem _ hd)]

/-- A phrase leaves the depth of brackets as it was. -/
theorem Phrase.toSectionEnd_append {banned : List (List Char)} {marks s : List Char}
    (h : Phrase banned marks s) (opens : List Char) (depth : Nat) (r : List Char) :
    toSectionEnd opens depth (s ++ r) = toSectionEnd opens depth r := by
  induction h generalizing depth r with
  | nil => rfl
  | word hw _ _ _ ih => rw [List.append_assoc, toSectionEnd_run hw.inside, ih]
  | @mark _ s c _ hc _ ih =>
      have hplain : isHeaderChar c = true ∧ c ≠ '[' ∧ c ≠ ']' := by
        simp only [String.reduceToList, List.mem_cons, List.not_mem_nil, or_false] at hc
        rcases hc with rfl | rfl | rfl | rfl <;> decide
      rw [List.cons_append, toSectionEnd_plain hplain.1 hplain.2.1 hplain.2.2, ih]
  | space _ _ ih =>
      rw [List.cons_append, toSectionEnd_plain (by decide) (by decide) (by decide), ih]
  | @brackets _ t s opening closing _ hb _ _ iht ih =>
      simp only [List.cons_append, List.append_assoc]
      simp only [List.mem_cons, Prod.mk.injEq, List.not_mem_nil, or_false] at hb
      rcases hb with ⟨rfl, rfl⟩ | ⟨rfl, rfl⟩ | ⟨rfl, rfl⟩
      · rw [toSectionEnd_plain (by decide) (by decide) (by decide), iht,
          toSectionEnd_plain (by decide) (by decide) (by decide), ih]
      · rw [toSectionEnd_plain (by decide) (by decide) (by decide), iht,
          toSectionEnd_plain (by decide) (by decide) (by decide), ih]
      · rw [toSectionEnd_step (by decide), if_pos rfl, iht, toSectionEnd_step (by decide),
          if_neg (by decide), if_pos rfl]
        exact ih depth r

/-- A section is read up to its closing bracket. -/
theorem Phrase.readSection_append {banned : List (List Char)} {marks s : List Char}
    (h : Phrase banned marks s) (opens r : List Char) :
    readSection opens (s ++ ']' :: r) = .ok (s, r) := by
  have hend : toSectionEnd opens 0 (s ++ ']' :: r) = .ok (']' :: r) := by
    rw [h.toSectionEnd_append, toSectionEnd_step (by decide)]
    rfl
  have hlen : (s ++ ']' :: r).length - (']' :: r).length = s.length := by
    rw [List.length_append, Nat.add_sub_cancel]
  simp only [readSection, hend, bind, Except.bind, pure, Except.pure, hlen, List.take_left,
    List.drop_one, List.tail_cons]

end Declaration
end DocPages
