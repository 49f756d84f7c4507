/-
Types as they are spelled, with blanks between their parts.

Whatever type stands in a header, it is a balanced text of a few characters in which no word
declares a type.
-/
import DocPages.Proofs.Declaration.Balanced
import DocPages.Proofs.Declaration.Headers

namespace DocPages
namespace Declaration

open Text

/-! ## Spelling -/

/-- A letter or a low line, and then letters, digits and what joins them. -/
structure IsIdentifier (s : List Char) : Prop where
  starts : s.head?.any (fun c => isAlphabetic c || c == '_') = true
  inside : ∀ c ∈ s, isWordChar c = true

inductive TypePart where
  /-- A dotted name, each part of which may have type arguments. -/
  | name
  | type
  /-- A type in a tuple, which may have a name of its own. -/
  | element
  /-- Types, or elements, and the commas between them. -/
  | list (elements : Bool)
deriving DecidableEq

/-- What a list is made of. -/
def TypePart.item (elements : Bool) : TypePart := if elements then .element else .type

/-- Types, built of names that are not banned. -/
inductive TypeText (banned : List (List Char)) : TypePart → List Char → Prop
  | simple {s : List Char} : IsIdentifier s → s ∉ banned → TypeText banned .name s
  | generic {s gap list : List Char} :
      IsIdentifier s → s ∉ banned → allBlank gap = true → TypeText banned (.list false) list →
      TypeText banned .name (s ++ (gap ++ '<' :: (list ++ ['>'])))
  | member {outer inner gap gap' : List Char} :
      TypeText banned .name outer → allBlank gap = true → allBlank gap' = true →
      TypeText banned .name inner →
      TypeText banned .name (outer ++ (gap ++ '.' :: (gap' ++ inner)))
  | named {s : List Char} : TypeText banned .name s → TypeText banned .type s
  | array {s gap rank : List Char} :
      TypeText banned .type s → allBlank gap = true → (∀ c ∈ rank, isBlank c = true ∨ c = ',') →
      TypeText banned .type (s ++ (gap ++ '[' :: (rank ++ [']'])))
  | nullable {s gap : List Char} :
      TypeText banned .type s → allBlank gap = true → TypeText banned .type (s ++ (gap ++ ['?']))
  | tuple {list : List Char} :
      TypeText banned (.list true) list → TypeText banned .type ('(' :: (list ++ [')']))
  | unnamed {s : List Char} : TypeText banned .type s → TypeText banned .element s
  | labelled {s gap name : List Char} :
      TypeText banned .type s → gap ≠ [] → allBlank gap = true → IsIdentifier name →
      name ∉ banned →
      TypeText banned .element (s ++ (gap ++ name))
  | last {elements : Bool} {s gap gap' : List Char} :
      allBlank gap = true → TypeText banned (.item elements) s → allBlank gap' = true →
      TypeText banned (.list elements) (gap ++ (s ++ gap'))
  | more {elements : Bool} {s list gap gap' : List Char} :
      allBlank gap = true → TypeText banned (.item elements) s → allBlank gap' = true →
      TypeText banned (.list elements) list →
      TypeText banned (.list elements) (gap ++ (s ++ (gap' ++ ',' :: list)))

theorem head_append {p : Char → Bool} {s : List Char} (h : s.head?.any p = true) (r : List Char) :
    (s ++ r).head?.any p = true := by
  cases s with
  | nil => cases h
  | cons c s => exact h

namespace IsIdentifier

variable {s : List Char}

instance (s : List Char) : Decidable (IsIdentifier s) :=
  decidable_of_iff (s.head?.any (fun c => isAlphabetic c || c == '_') = true ∧
    ∀ c ∈ s, isWordChar c = true) ⟨fun h => ⟨h.1, h.2⟩, fun h => ⟨h.starts, h.inside⟩⟩

theorem ne_nil (h : IsIdentifier s) : s ≠ [] := by
  rintro rfl
  exact absurd h.starts (by decide)

theorem head (h : IsIdentifier s) : s.head?.any isWordChar = true := by
  cases s with
  | nil => exact absurd rfl h.ne_nil
  | cons c s => exact h.inside c List.mem_cons_self

theorem of_isWord (h : IsWord s) : IsIdentifier s where
  starts := by
    obtain ⟨c, rest, rfl, hc, -⟩ := h.exists_cons
    simp only [isIdentStart, Bool.or_eq_true] at hc
    simp only [List.head?_cons, Option.any_some, isAlphabetic, Bool.or_eq_true]
    rcases hc with hc | hc
    · exact .inl (.inl hc)
    · exact .inr hc
  inside := fun c hc => isWordChar_of_isIdentChar (h.inside c hc)

end IsIdentifier

/-! ## Characters -/

theorem ne_of_isWordChar {c d : Char} (hc : isWordChar c = true) (hd : isWordChar d = false) :
    c ≠ d := by
  rintro rfl
  rw [hc] at hd
  cases hd

/-- What is no part of words is no part of an identifier. -/
theorem IsIdentifier.notMem {s : List Char} (h : IsIdentifier s) {c : Char}
    (hc : isWordChar c = false) : c ∉ s := fun hmem => ne_of_isWordChar (h.inside c hmem) hc rfl

theorem ne_of_isBlank {c d : Char} (hc : isBlank c = true) (hd : isBlank d = false) : c ≠ d := by
  rintro rfl
  rw [hc] at hd
  cases hd

theorem not_isBlank_of_isWordChar {c : Char} (h : isWordChar c = true) : isBlank c = false := by
  have htable : ∀ n ∈ blankCodes, isWordChar (Char.ofNat n) = false := by decide +kernel
  exact not_blank_of_codes htable h

def typePunctuation : List Char := ".?,()<>[]".toList

/-- Word characters, blanks and punctuation. -/
def isTypeChar (c : Char) : Bool := isWordChar c || isBlank c || typePunctuation.contains c

theorem isTypeChar_of_isWordChar {c : Char} (h : isWordChar c = true) : isTypeChar c = true := by
  rw [isTypeChar, h, Bool.true_or, Bool.true_or]

theorem isTypeChar_of_isBlank {c : Char} (h : isBlank c = true) : isTypeChar c = true := by
  rw [isTypeChar, h, Bool.or_true, Bool.true_or]

/-- The other ASCII signs, which no type is spelled with. -/
def foreignSigns : List Char := "!\"#$%&'*+-/:;=@\\^\x7b|\x7d~".toList

/-- The tables of characters are looked through here, so that a proof about a sign need not. -/
theorem isWordChar_sign {c : Char} (h : c ∈ ' ' :: '\n' :: (typePunctuation ++ foreignSigns)) :
    isWordChar c = false := by
  have htable : ∀ d ∈ ' ' :: '\n' :: (typePunctuation ++ foreignSigns), isWordChar d = false := by
    decide
  exact htable c h

theorem isTypeChar_foreign {c : Char} (h : c ∈ foreignSigns) : isTypeChar c = false := by
  have htable : ∀ d ∈ foreignSigns, isTypeChar d = false := by decide
  exact htable c h

theorem isTypeChar_punctuation {c : Char} (h : c ∈ typePunctuation) : isTypeChar c = true := by
  have hcontains : typePunctuation.contains c = true := List.contains_iff_mem.2 h
  rw [isTypeChar, hcontains, Bool.or_true]

theorem not_isWordChar_of_punctuation {c : Char} (h : c ∈ typePunctuation) :
    isWordChar c = false :=
  isWordChar_sign (List.mem_cons_of_mem _ (List.mem_cons_of_mem _ (List.mem_append_left _ h)))

theorem mem_punctuation_of_mark {c : Char} (h : c ∈ ".?,".toList) : c ∈ typePunctuation :=
  (by decide : ".?,".toList ⊆ typePunctuation) h

theorem mem_punctuation_of_pair {opening closing : Char}
    (h : (opening, closing) ∈ [('(', ')'), ('<', '>'), ('[', ']')]) :
    opening ∈ typePunctuation ∧ closing ∈ typePunctuation := by
  simp only [List.mem_cons, Prod.mk.injEq, List.not_mem_nil, or_false] at h
  rcases h with ⟨rfl, rfl⟩ | ⟨rfl, rfl⟩ | ⟨rfl, rfl⟩ <;> decide

/-! ## Wordings -/

/-- Names that are not banned, blanks, marks, and texts of this form in brackets.  `commas`
tells whether a comma may stand outside of brackets. -/
inductive Wording (banned : List (List Char)) : Bool → List Char → Prop
  | nil {commas : Bool} : Wording banned commas []
  | word {commas : Bool} {w s : List Char} :
      IsIdentifier w → w ∉ banned → Stops isWordChar s → Wording banned commas s →
      Wording banned commas (w ++ s)
  | blank {commas : Bool} {c : Char} {s : List Char} :
      isBlank c = true → Wording banned commas s → Wording banned commas (c :: s)
  | mark {commas : Bool} {c : Char} {s : List Char} :
      c ∈ ".?,".toList → (c = ',' → commas = true) → Wording banned commas s → Wording banned commas (c :: s)
  | brackets {commas : Bool} {t s : List Char} {opening closing : Char} :
      (opening, closing) ∈ [('(', ')'), ('<', '>'), ('[', ']')] → Wording banned true t →
      Wording banned commas s → Wording banned commas (opening :: (t ++ closing :: s))

namespace Wording

variable {banned : List (List Char)} {commas : Bool} {s t : List Char}

theorem append (hs : Wording banned commas s) (ht : Wording banned commas t)
    (hstop : Stops isWordChar t) : Wording banned commas (s ++ t) := by
  induction hs with
  | nil => exact ht
  | word hw hfree hstop' _ ih =>
      rw [List.append_assoc]
      exact .word hw hfree (stops_append hstop' hstop) (ih ht)
  | blank hc _ ih => exact .blank hc (ih ht)
  | mark hc hcomma _ ih => exact .mark hc hcomma (ih ht)
  | brackets hb hin _ _ ih =>
      rw [List.cons_append, List.append_assoc, List.cons_append]
      exact .brackets hb hin (ih ht)

theorem allow (h : Wording banned commas s) : Wording banned true s := by
  induction h with
  | nil => exact .nil
  | word hw hfree hstop _ ih => exact .word hw hfree hstop ih
  | blank hc _ ih => exact .blank hc ih
  | mark hc _ _ ih => exact .mark hc (fun _ => rfl) ih
  | brackets hb hin _ _ ih => exact .brackets hb hin ih

theorem pad {gap : List Char} (hgap : allBlank gap = true) (h : Wording banned commas s) :
    Wording banned commas (gap ++ s) := by
  induction gap with
  | nil => exact h
  | cons c gap ih =>
      rw [allBlank, List.all_cons, Bool.and_eq_true] at hgap
      exact .blank hgap.1 (ih hgap.2)

theorem blanks {gap : List Char} (hgap : allBlank gap = true) : Wording banned commas gap := by
  rw [← List.append_nil gap]
  exact .pad hgap .nil

theorem of_identifier (hs : IsIdentifier s) (hfree : s ∉ banned) : Wording banned commas s := by
  rw [← List.append_nil s]
  exact .word hs hfree (stops_nil _) .nil

end Wording

/-- A blank ends a word. -/
theorem stops_blank {gap : List Char} (hgap : allBlank gap = true) : Stops isWordChar gap := by
  intro c hc
  have hblank := List.all_eq_true.1 hgap c (List.mem_of_mem_head? hc)
  rw [Bool.eq_false_iff]
  intro hword
  rw [not_isBlank_of_isWordChar hword] at hblank
  cases hblank

theorem stops_gap {gap s : List Char} (hgap : allBlank gap = true) (hs : Stops isWordChar s) :
    Stops isWordChar (gap ++ s) :=
  stops_append (stops_blank hgap) hs

/-- A list has commas outside of brackets. -/
def TypePart.commas : TypePart → Bool
  | .list _ => true
  | _ => false

theorem TypePart.commas_item (elements : Bool) : (TypePart.item elements).commas = false := by
  cases elements <;> rfl

theorem TypeText.wording {banned : List (List Char)} {part : TypePart} {s : List Char}
    (h : TypeText banned part s) :
    Wording banned part.commas s := by
  induction h with
  | simple hs hfree => exact .of_identifier hs hfree
  | generic hs hfree hgap _ ih =>
      refine (Wording.of_identifier hs hfree).append ?_ (stops_gap hgap (stops_cons (by decide) _))
      exact .pad hgap (.brackets (by decide) ih .nil)
  | member _ hgap hgap' _ iho ihi =>
      refine iho.append ?_ (stops_gap hgap (stops_cons (by decide) _))
      exact .pad hgap (.mark (by decide) (fun e => absurd e (by decide)) (.pad hgap' ihi))
  | named _ ih => exact ih
  | @array s gap rank _ hgap hrank ih =>
      have hranks : Wording banned true rank := by
        clear ih
        induction rank with
        | nil => exact .nil
        | cons c rank ihrank =>
            have hrest := ihrank fun d hd => hrank d (List.mem_cons_of_mem _ hd)
            rcases hrank c List.mem_cons_self with hb | rfl
            · exact .blank hb hrest
            · exact .mark (by decide) (fun _ => rfl) hrest
      refine ih.append ?_ (stops_gap hgap (stops_cons (by decide) _))
      exact .pad hgap (.brackets (by decide) hranks .nil)
  | nullable _ hgap ih =>
      refine ih.append ?_ (stops_gap hgap (stops_cons (by decide) _))
      exact .pad hgap (.mark (by decide) (fun e => absurd e (by decide)) .nil)
  | tuple _ ih => exact .brackets (by decide) ih .nil
  | unnamed _ ih => exact ih
  | @labelled s gap name _ hne hgap hname hfree ih =>
      exact ih.append (.pad hgap (.of_identifier hname hfree))
        ((stops_blank hgap).append_right hne name)
  | @last elements s gap gap' hgap _ hgap' ih =>
      rw [TypePart.commas_item] at ih
      exact .pad hgap (ih.allow.append (.blanks hgap') (stops_blank hgap'))
  | more hgap _ hgap' _ ih ihlist =>
      rw [TypePart.commas_item] at ih
      refine .pad hgap (ih.allow.append ?_ (stops_gap hgap' (stops_cons (by decide) _)))
      exact .pad hgap' (.mark (by decide) (fun _ => rfl) ihlist)

namespace Wording

variable {banned : List (List Char)} {commas : Bool} {s : List Char}

theorem chars (h : Wording banned commas s) : ∀ c ∈ s, isTypeChar c = true := by
  have hmark : ∀ c ∈ typePunctuation, isTypeChar c = true := fun _ => isTypeChar_punctuation
  induction h with
  | nil => nofun
  | word hw _ _ _ ih =>
      exact List.forall_mem_append.2 ⟨fun c hc => isTypeChar_of_isWordChar (hw.inside c hc), ih⟩
  | blank hc _ ih => exact List.forall_mem_cons.2 ⟨isTypeChar_of_isBlank hc, ih⟩
  | mark hc _ _ ih =>
      exact List.forall_mem_cons.2 ⟨hmark _ (mem_punctuation_of_mark hc), ih⟩
  | brackets hb _ _ iht ihs =>
      have hin := mem_punctuation_of_pair hb
      exact List.forall_mem_cons.2 ⟨hmark _ hin.1, List.forall_mem_append.2
        ⟨iht, List.forall_mem_cons.2 ⟨hmark _ hin.2, ihs⟩⟩⟩

theorem notMem (h : Wording banned commas s) {c : Char} (hc : isTypeChar c = false) : c ∉ s := by
  intro hmem
  rw [h.chars c hmem] at hc
  cases hc

theorem balanced (h : Wording banned commas s) (literal : List Char → Prop) :
    Balanced literal commas s := by
  have hother : ∀ {c : Char}, isWordChar c = true ∨ isBlank c = true →
      c ∉ "\"'()[]\x7b\x7d<>,".toList := by
    intro c hc hmem
    have htable : ∀ d ∈ "\"'()[]\x7b\x7d<>,".toList, isWordChar d = false ∧ isBlank d = false := by
      decide
    have hd := htable c hmem
    simp [hd.1, hd.2] at hc
  induction h with
  | nil => exact .nil
  | word hw _ _ _ ih => exact (Balanced.run fun c hc => hother (.inl (hw.inside c hc))).append ih
  | @blank _ c _ hc _ ih =>
      have hone : ∀ d ∈ [c], d ∉ "\"'()[]\x7b\x7d<>,".toList := fun d hd =>
        hother (.inr (List.mem_singleton.1 hd ▸ hc))
      exact (Balanced.run hone).append ih
  | @mark _ c _ hc hcomma _ ih =>
      refine .code ?_ hcomma ih
      simp only [String.reduceToList, List.mem_cons, List.not_mem_nil, or_false] at hc
      rcases hc with rfl | rfl | rfl <;> decide
  | @brackets _ t s opening closing hb _ _ iht ih =>
      refine .brackets ?_ iht ih
      simp only [List.mem_cons, Prod.mk.injEq, List.not_mem_nil, or_false] at hb
      rcases hb with ⟨rfl, rfl⟩ | ⟨rfl, rfl⟩ | ⟨rfl, rfl⟩ <;> decide

end Wording

theorem IsIdentifier.balanced {s : List Char} (h : IsIdentifier s) {literal : List Char → Prop}
    {commas : Bool} : Balanced literal commas s :=
  (Wording.of_identifier h (List.not_mem_nil (a := s))).balanced literal

theorem balanced_blanks {gap : List Char} (hgap : allBlank gap = true)
    {literal : List Char → Prop} {commas : Bool} : Balanced literal commas gap :=
  (@Wording.blanks [] commas gap hgap).balanced literal

/-! ## Types that are declared -/

/-- No type is declared in `s`: in front of `r` the first one is the first of `r`. -/
def TypeFree (s r : List Char) : Prop :=
  ∀ prev, ∃ prev', findTypeFrom prev (s ++ r) =
    (findTypeFrom prev' r).map fun found => (s ++ found.1, found.2)

theorem findTypeFrom_skip {prev : Option Char} {c : Char} {s : List Char}
    (h : prev.any isWordChar = true ∨ readType (c :: s) = none) :
    findTypeFrom prev (c :: s) =
      (findTypeFrom (some c) s).map fun found => (c :: found.1, found.2) := by
  rw [findTypeFrom]
  rcases h with h | h <;> simp [h]

namespace TypeFree

variable {s t r : List Char}

theorem nil : TypeFree [] r := fun prev =>
  ⟨prev, (Option.map_id' (x := findTypeFrom prev r)).symm⟩

theorem append (hs : TypeFree s (t ++ r)) (ht : TypeFree t r) : TypeFree (s ++ t) r := by
  intro prev
  obtain ⟨prev', hs⟩ := hs prev
  obtain ⟨prev'', ht⟩ := ht prev'
  refine ⟨prev'', ?_⟩
  rw [List.append_assoc, hs, ht, Option.map_map]
  simp only [Function.comp_def, List.append_assoc]

theorem single {c : Char} (h : readType (c :: r) = none) : TypeFree [c] r := fun _ =>
  ⟨some c, findTypeFrom_skip (.inr h)⟩

/-- A keyword could start only with the word, and then it would be the word. -/
theorem word {w : List Char} (hw : IsIdentifier w) (hr : Stops isWordChar r)
    (hkey : w ∈ typeWords → Stops isBlank r) : TypeFree w r := by
  have hkeys : ∀ key ∈ typeWords, ∀ c ∈ key, isWordChar c = true := by decide
  have hread := readType_run (fun _ => not_isBlank_of_isWordChar) hw.inside hr hkeys hkey
  -- Inside of the word no keyword starts.
  have hinside : ∀ (run : List Char) (c : Char), isWordChar c = true →
      (∀ d ∈ run, isWordChar d = true) → ∃ prev', findTypeFrom (some c) (run ++ r) =
        (findTypeFrom prev' r).map fun found => (run ++ found.1, found.2) := by
    intro run
    induction run with
    | nil => exact fun c _ _ => nil (some c)
    | cons d run ih =>
        intro c hc hrun
        obtain ⟨prev', hrest⟩ :=
          ih d (hrun d List.mem_cons_self) fun e he => hrun e (List.mem_cons_of_mem _ he)
        refine ⟨prev', ?_⟩
        have hskip : (some c).any isWordChar = true := hc
        rw [List.cons_append, findTypeFrom_skip (.inl hskip), hrest, Option.map_map]
        rfl
  cases w with
  | nil => exact absurd rfl hw.ne_nil
  | cons c w =>
      intro prev
      obtain ⟨prev', hrest⟩ := hinside w c (hw.inside c List.mem_cons_self)
        fun d hd => hw.inside d (List.mem_cons_of_mem _ hd)
      have hskip : readType (c :: (w ++ r)) = none := hread
      refine ⟨prev', ?_⟩
      rw [List.cons_append, findTypeFrom_skip (.inr hskip), hrest, Option.map_map]
      rfl

theorem readTypeHeader_eq_none (h : TypeFree s []) : readTypeHeader s = none := by
  obtain ⟨prev, hfind⟩ := h none
  rw [List.append_nil] at hfind
  rw [readTypeHeader, hfind]
  rfl

/-- What comes after an opening parenthesis declares no type. -/
theorem readTypeHeader_paren (h : TypeFree s ('(' :: r)) :
    readTypeHeader (s ++ '(' :: r) = none := by
  obtain ⟨prev, hfind⟩ := h none
  have hparen : readType ('(' :: r) = none := readType_other (by decide) r
  rw [readTypeHeader, hfind, findTypeFrom_skip (.inr hparen), Option.map_map]
  cases findTypeFrom (some '(') r with
  | none => rfl
  | some found => simp

end TypeFree

/-- No keyword of a type is in a wording. -/
theorem Wording.typeFree {banned : List (List Char)} {commas : Bool} {s : List Char}
    (h : Wording banned commas s) (hb : typeWords ⊆ banned) {r : List Char}
    (hr : Stops isWordChar r) : TypeFree s r := by
  have hother : ∀ {c : Char}, isBlank c = true ∨ c ∈ typePunctuation →
      ∀ s, TypeFree [c] s := by
    intro c hc s
    refine .single (readType_other (fun hmem => ?_) s)
    have htable : ∀ d ∈ "csier".toList, isBlank d = false ∧ d ∉ typePunctuation := by
      decide
    have hd := htable c hmem
    simp [hd.1, hd.2] at hc
  induction h generalizing r with
  | nil => exact .nil
  | word hw hfree hs _ ih =>
      exact .append (.word hw (stops_append hs hr) fun hmem => absurd (hb hmem) hfree) (ih hr)
  | blank hc _ ih => exact .append (hother (.inl hc) _) (ih hr)
  | mark hc _ _ ih => exact .append (hother (.inr (mem_punctuation_of_mark hc)) _) (ih hr)
  | brackets hbr _ _ iht ih =>
      have hin := mem_punctuation_of_pair hbr
      refine .append (hother (.inr hin.1) _) (.append (iht ?_) (.append (hother (.inr hin.2) _) (ih hr)))
      exact stops_cons (not_isWordChar_of_punctuation hin.2) _

/-! ## Ends -/

theorem IsIdentifier.ends {s : List Char} (h : IsIdentifier s) : Stops isBlank s ∧ Trimmed s := by
  have hblank : ∀ c ∈ s, isBlank c = false := fun c hc => not_isBlank_of_isWordChar (h.inside c hc)
  refine ⟨fun c hc => hblank c (List.mem_of_mem_head? hc), ?_⟩
  exact endsIn_of_forall h.ne_nil fun c hc => by rw [hblank c hc, Bool.not_false]

/-- A type is not surrounded by blanks. -/
theorem TypeText.ends {banned : List (List Char)} {part : TypePart} {s : List Char}
    (h : TypeText banned part s) (hpart : part.commas = false) : Stops isBlank s ∧ Trimmed s := by
  have hclose : ∀ {c : Char}, isBlank c = false → Trimmed [c] := fun hc =>
    ⟨[], _, rfl, by simp [hc]⟩
  induction h with
  | simple hs _ => exact hs.ends
  | generic hs _ _ _ _ =>
      refine ⟨hs.ends.1.append_right hs.ne_nil _, endsIn_append (endsIn_append ?_ _) _⟩
      exact endsIn_cons (endsIn_append (hclose (by decide)) _) _
  | member _ _ _ _ iho ihi =>
      refine ⟨(iho hpart).1.append_right (iho hpart).2.ne_nil _, endsIn_append (endsIn_append ?_ _) _⟩
      exact endsIn_cons (endsIn_append (ihi hpart).2 _) _
  | named _ ih => exact ih hpart
  | array _ _ _ ih =>
      refine ⟨(ih hpart).1.append_right (ih hpart).2.ne_nil _, endsIn_append (endsIn_append ?_ _) _⟩
      exact endsIn_cons (endsIn_append (hclose (by decide)) _) _
  | nullable _ _ ih =>
      refine ⟨(ih hpart).1.append_right (ih hpart).2.ne_nil _, endsIn_append (endsIn_append ?_ _) _⟩
      exact hclose (by decide)
  | tuple _ _ => exact ⟨stops_cons (by decide) _, endsIn_cons (endsIn_append (hclose (by decide)) _) _⟩
  | unnamed _ ih => exact ih hpart
  | labelled _ _ _ hname _ ih =>
      exact ⟨(ih hpart).1.append_right (ih hpart).2.ne_nil _,
        endsIn_append (endsIn_append hname.ends.2 _) _⟩
  | last => cases hpart
  | more => cases hpart

/-- A type starts with a name or with a tuple. -/
theorem TypeText.starts {banned : List (List Char)} {part : TypePart} {s : List Char}
    (h : TypeText banned part s) (hpart : part.commas = false) :
    s.head?.any isWordChar = true ∨ '(' ∈ s := by
  have happend : ∀ {s : List Char} (r : List Char), s.head?.any isWordChar = true ∨ '(' ∈ s →
      (s ++ r).head?.any isWordChar = true ∨ '(' ∈ s ++ r :=
    fun r h => h.imp (head_append · r) (List.mem_append_left r)
  induction h with
  | simple hs _ => exact .inl hs.head
  | generic hs _ _ _ _ => exact .inl (head_append hs.head _)
  | member _ _ _ _ ih _ => exact happend _ (ih hpart)
  | named _ ih => exact ih hpart
  | array _ _ _ ih => exact happend _ (ih hpart)
  | nullable _ _ ih => exact happend _ (ih hpart)
  | tuple _ _ => exact .inr List.mem_cons_self
  | unnamed _ ih => exact ih hpart
  | labelled _ _ _ _ _ ih => exact happend _ (ih hpart)
  | last => cases hpart
  | more => cases hpart

/-! ## Tuples -/

/-- A text that ends with an angle bracket or a comma, and blanks. -/
def Introduced (front : List Char) : Prop :=
  ∃ before c gap, front = before ++ c :: gap ∧ (c = '<' ∨ c = ',') ∧ allBlank gap = true

theorem Introduced.append {front : List Char} (h : Introduced front) (s : List Char) :
    Introduced (s ++ front) := by
  obtain ⟨before, c, gap, rfl, hc, hgap⟩ := h
  exact ⟨s ++ before, c, gap, (List.append_assoc ..).symm, hc, hgap⟩

theorem introduced_cons {front : List Char} {c : Char} (hc : c = '<' ∨ c = ',')
    (h : allBlank front = true ∨ Introduced front) (s : List Char) :
    Introduced (s ++ c :: front) := by
  rcases h with h | h
  · exact ⟨s, c, front, rfl, hc, h⟩
  · exact (h.append [c]).append s

theorem notMem_of_allBlank {c : Char} (hc : isBlank c = false) {gap : List Char}
    (hgap : allBlank gap = true) : c ∉ gap := fun hmem =>
  ne_of_isBlank (List.all_eq_true.1 hgap c hmem) hc rfl

/-- The first parenthesis of a text opens a tuple: an angle bracket or a comma introduces it.
`bare` tells that it may also stand at the start of the text. -/
def OpensTuple (bare : Prop) (s : List Char) : Prop :=
  ∃ front back, s = front ++ '(' :: back ∧ '(' ∉ front ∧
    (bare ∧ allBlank front = true ∨ Introduced front)

namespace OpensTuple

variable {bare : Prop} {s : List Char}

theorem mono {bare' : Prop} (h : OpensTuple bare s) (hbare : bare → bare') :
    OpensTuple bare' s := by
  obtain ⟨front, back, heq, hfront, hintro⟩ := h
  exact ⟨front, back, heq, hfront, hintro.imp_left (And.imp_left hbare)⟩

theorem append (h : OpensTuple bare s) (r : List Char) : OpensTuple bare (s ++ r) := by
  obtain ⟨front, back, rfl, hfront, hintro⟩ := h
  exact ⟨front, back ++ r, List.append_assoc .., hfront, hintro⟩

theorem padded (h : OpensTuple bare s) {gap : List Char} (hgap : allBlank gap = true) :
    OpensTuple bare (gap ++ s) := by
  obtain ⟨front, back, rfl, hfront, hintro⟩ := h
  have hgaps : '(' ∉ gap := notMem_of_allBlank (by decide) hgap
  refine ⟨gap ++ front, back, (List.append_assoc ..).symm, ?_, ?_⟩
  · simp [hgaps, hfront]
  · refine hintro.imp (And.imp_right fun hblank => ?_) (·.append gap)
    rw [allBlank, List.all_append, ← allBlank, ← allBlank, hgap, hblank, Bool.and_self]

theorem introduced (h : OpensTuple bare s) {c : Char} (hc : c = '<' ∨ c = ',') :
    OpensTuple False (c :: s) := by
  obtain ⟨front, back, rfl, hfront, hintro⟩ := h
  refine ⟨c :: front, back, rfl, ?_, .inr (introduced_cons hc (hintro.imp_left And.right) [])⟩
  rcases hc with rfl | rfl <;> simp [hfront]

theorem behind (h : OpensTuple False s) {t : List Char} (ht : '(' ∉ t) :
    OpensTuple bare (t ++ s) := by
  obtain ⟨front, back, rfl, hfront, hintro⟩ := h
  refine ⟨t ++ front, back, (List.append_assoc ..).symm, by simp [ht, hfront], .inr ?_⟩
  exact (hintro.resolve_left And.left).append t

end OpensTuple

/-- The first parenthesis of a type opens a tuple, which is the type itself or stands in a
list. -/
theorem TypeText.first_paren {banned : List (List Char)} {part : TypePart} {s : List Char}
    (h : TypeText banned part s) (hp : '(' ∈ s) : OpensTuple (part ≠ .name) s := by
  have hgaps : ∀ {gap : List Char}, allBlank gap = true → '(' ∉ gap :=
    fun hgap => notMem_of_allBlank (by decide) hgap
  have hnames : ∀ {s : List Char}, IsIdentifier s → '(' ∉ s :=
    fun hs => hs.notMem (isWordChar_sign (by decide))
  induction h with
  | simple hs _ => exact absurd hp (hnames hs)
  | @generic s gap list hs _ hgap _ ih =>
      have hlist := ih (by simpa [hnames hs, hgaps hgap] using hp)
      exact (((hlist.append ['>']).introduced (.inl rfl)).behind (hgaps hgap)).behind (hnames hs)
  | @member outer inner gap gap' _ hgap hgap' _ iho ihi =>
      by_cases houter : '(' ∈ outer
      · exact (iho houter).append _
      · have hinner := ihi (by simpa [houter, hgaps hgap, hgaps hgap'] using hp)
        have hdot : OpensTuple False ('.' :: (gap' ++ inner)) :=
          ((hinner.mono fun hname => hname rfl).behind (hgaps hgap')).behind (t := ['.']) (by decide)
        exact (hdot.behind (hgaps hgap)).behind houter
  | named _ ih => exact (ih hp).mono fun _ => nofun
  | @array s gap rank _ hgap hrank ih =>
      have hranks : '(' ∉ rank := fun hmem => by
        rcases hrank _ hmem with hblank | hcomma
        · cases hblank
        · cases hcomma
      exact (ih (by simpa [hgaps hgap, hranks] using hp)).append _
  | nullable _ hgap ih => exact (ih (by simpa [hgaps hgap] using hp)).append _
  | tuple _ _ => exact ⟨[], _, rfl, List.not_mem_nil, .inl ⟨nofun, rfl⟩⟩
  | unnamed _ ih => exact (ih hp).mono fun _ => nofun
  | labelled _ _ hgap hname _ ih =>
      exact ((ih (by simpa [hgaps hgap, hnames hname] using hp)).append _).mono fun _ => nofun
  | last hgap _ hgap' ih =>
      have hitem := ih (by simpa [hgaps hgap, hgaps hgap'] using hp)
      exact ((hitem.append _).padded hgap).mono fun _ => nofun
  | @more elements s list gap gap' hgap _ hgap' _ ih ihlist =>
      by_cases hs : '(' ∈ s
      · exact (((ih hs).append _).padded hgap).mono fun _ => nofun
      · have hlist := ihlist (by simpa [hs, hgaps hgap, hgaps hgap'] using hp)
        exact (((hlist.introduced (.inr rfl)).behind (hgaps hgap')).behind hs).behind (hgaps hgap)

end Declaration
end DocPages
