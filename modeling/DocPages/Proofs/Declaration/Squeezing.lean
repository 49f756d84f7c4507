/-
Headers without comments and literals, in which only the blanks are squeezed.

What is read from such a header is read from the text as it was written.
-/
import DocPages.Proofs.Declaration.Gathering
import DocPages.Proofs.Declaration.TypeTexts

namespace DocPages
namespace Declaration

open Text

/-- Blanks as a header keeps them.  `after` tells that it ends with a space. -/
def squeeze : Bool → List Char → List Char
  | _, [] => []
  | after, c :: s =>
    if isBlank c then if after then squeeze true s else ' ' :: squeeze true s
    else c :: squeeze false s

section Squeeze

variable {after : Bool} {c : Char} {s t : List Char}

theorem squeeze_cons (h : isBlank c = false) (s : List Char) :
    squeeze after (c :: s) = c :: squeeze false s := by
  rw [squeeze, h, if_neg Bool.false_ne_true]

theorem squeeze_blank (h : isBlank c = true) (s : List Char) :
    squeeze after (c :: s) = (if after then [] else [' ']) ++ squeeze true s := by
  rw [squeeze, h, if_pos rfl]
  cases after <;> rfl

theorem squeeze_append_cons (h : isBlank c = false) (s t : List Char) :
    squeeze after (s ++ c :: t) = squeeze after s ++ c :: squeeze false t := by
  induction s generalizing after with
  | nil => exact squeeze_cons h t
  | cons d s ih =>
      rw [List.cons_append]
      cases hd : isBlank d with
      | true => rw [squeeze_blank hd, squeeze_blank hd, ih, List.append_assoc]
      | false => rw [squeeze_cons hd, squeeze_cons hd, ih, List.cons_append]

theorem squeeze_append (he : Trimmed s) (t : List Char) :
    squeeze after (s ++ t) = squeeze after s ++ squeeze false t := by
  obtain ⟨before, c, rfl, hc⟩ := he
  have hsolid : isBlank c = false := by simpa using hc
  rw [List.append_assoc, List.singleton_append, squeeze_append_cons hsolid,
    squeeze_append_cons hsolid, List.append_assoc]
  rfl

/-- A text without blanks stays as it is. -/
theorem squeeze_run {run : List Char} (hrun : ∀ c ∈ run, isBlank c = false) (hne : run ≠ [])
    (s : List Char) : squeeze after (run ++ s) = run ++ squeeze false s := by
  induction run generalizing after with
  | nil => exact absurd rfl hne
  | cons c run ih =>
      rw [List.cons_append, squeeze_cons (hrun c List.mem_cons_self)]
      cases run with
      | nil => rfl
      | cons d run =>
          rw [ih (fun e he => hrun e (List.mem_cons_of_mem _ he)) (List.cons_ne_nil d run)]
          rfl

theorem squeeze_append_run {run : List Char} (hrun : ∀ c ∈ run, isBlank c = false)
    (hne : run ≠ []) : squeeze after (s ++ run) = squeeze after s ++ run := by
  cases run with
  | nil => exact absurd rfl hne
  | cons c run =>
      have hself := @squeeze_run false _ hrun hne []
      rw [List.append_nil, squeeze_cons (hrun c List.mem_cons_self), squeeze, List.append_nil] at hself
      rw [squeeze_append_cons (hrun c List.mem_cons_self), hself]

theorem endsBlank_cons (after : Bool) (c : Char) (t : List Char) :
    endsBlank after (c :: t) = endsBlank (c == ' ') t := by
  rw [endsBlank, endsBlank, List.getLast?_cons]
  cases t.getLast? <;> rfl

/-- What has no comments, literals and bodies is gathered as it is, but for its blanks. -/
theorem gathers_squeeze {braced : Bool} {u v : List Char}
    (hs : ∀ c ∈ s, c ∉ "/'\"@$\x7b\x7d;".toList)
    (hu : Gathers braced (endsBlank after (squeeze after s)) u v) :
    Gathers braced after (s ++ u) (squeeze after s ++ v) := by
  induction s generalizing after with
  | nil => exact hu
  | cons c s ih =>
      have hrest := fun d hd => hs d (List.mem_cons_of_mem c hd)
      cases hc : isBlank c with
      | true =>
          rw [squeeze_blank hc] at hu ⊢
          cases after with
          | true => exact .more hc (ih hrest hu)
          | false =>
              rw [if_neg Bool.false_ne_true, List.singleton_append, endsBlank_cons] at hu
              exact .space hc (ih hrest hu)
      | false =>
          have hspace : (c == ' ') = false := by
            rw [beq_eq_false_iff_ne]
            rintro rfl
            cases hc
          rw [squeeze_cons hc, endsBlank_cons, hspace] at hu
          rw [squeeze_cons hc]
          exact .code hc (hs c List.mem_cons_self) (ih hrest hu)

theorem gathered_squeeze {u v : List Char} (hblank : isBlank c = false) (hc : c ≠ '#' ∧ c ≠ '[')
    (hs : ∀ d ∈ c :: s, d ∉ "/'\"@$\x7b\x7d;".toList)
    (hu : Gathers false (endsBlank false (squeeze false (c :: s))) u v) :
    Gathered (c :: s ++ u) (squeeze false (c :: s) ++ v) := by
  have hspace : (c == ' ') = false := by
    rw [beq_eq_false_iff_ne]
    rintro rfl
    cases hblank
  rw [squeeze_cons hblank, endsBlank_cons, hspace] at hu
  rw [squeeze_cons hblank]
  refine gathered_start hblank ?_ (gathers_squeeze (fun d hd => hs d (List.mem_cons_of_mem c hd)) hu)
  have := hs c List.mem_cons_self
  simp only [String.reduceToList, List.mem_cons, List.not_mem_nil, or_false, not_or] at this
  simp [this, hc]

theorem mem_squeeze (h : isBlank c = false) : c ∈ squeeze after s ↔ c ∈ s := by
  have hspace : c ≠ ' ' := by
    rintro rfl
    cases h
  induction s generalizing after with
  | nil => rfl
  | cons d s ih =>
      cases hd : isBlank d with
      | true =>
          have hne : c ≠ d := by
            rintro rfl
            rw [h] at hd
            cases hd
          have hnew : c ∉ (if after then [] else [' ']) := by
            cases after <;> simp [hspace]
          rw [squeeze_blank hd, List.mem_append, List.mem_cons, or_iff_right hne, or_iff_right hnew]
          exact ih
      | false =>
          rw [squeeze_cons hd, List.mem_cons, List.mem_cons]
          exact or_congr_right ih

theorem takeWhile_squeeze {p : Char → Bool} (hp : ∀ c, isBlank c = true → p c = true) :
    (squeeze after s).takeWhile p = squeeze after (s.takeWhile p) := by
  induction s generalizing after with
  | nil => rfl
  | cons c s ih =>
      cases hc : isBlank c with
      | true =>
          rw [squeeze_blank hc, List.takeWhile_cons_of_pos (hp c hc), squeeze_blank hc]
          cases after with
          | true => exact ih
          | false => exact (List.takeWhile_cons_of_pos (hp ' ' (by decide))).trans (congrArg _ ih)
      | false =>
          rw [squeeze_cons hc, List.takeWhile_cons, List.takeWhile_cons]
          split
          · rw [squeeze_cons hc, ih]
          · rfl

theorem endsIn_squeeze {p : Char → Bool} (hp : ∀ c, p c = true → isBlank c = false)
    (h : EndsIn p s) : EndsIn p (squeeze after s) := by
  obtain ⟨before, c, rfl, hc⟩ := h
  exact ⟨squeeze after before, c, squeeze_append_cons (hp c hc) before [], hc⟩

theorem trimmed_squeeze (h : Trimmed s) : Trimmed (squeeze after s) :=
  endsIn_squeeze (fun c hc => by simpa using hc) h

theorem prefix_squeeze {mark : List Char} (hm : ∀ c ∈ mark, isBlank c = false) :
    mark <+: squeeze false s ↔ mark <+: s := by
  induction mark generalizing s with
  | nil => exact iff_of_true (List.nil_prefix) (List.nil_prefix)
  | cons m mark ih =>
      have hmark := hm m List.mem_cons_self
      cases s with
      | nil => rfl
      | cons d s =>
          cases hd : isBlank d with
          | true =>
              have hne : ∀ e, isBlank e = true → ∀ u, ¬ m :: mark <+: e :: u := by
                intro e he u hprefix
                rw [(List.cons_prefix_cons.1 hprefix).1, he] at hmark
                cases hmark
              rw [squeeze_blank hd]
              exact iff_of_false (hne ' ' (by decide) _) (hne d hd s)
          | false =>
              rw [squeeze_cons hd, List.cons_prefix_cons, List.cons_prefix_cons,
                ih fun c hc => hm c (List.mem_cons_of_mem _ hc)]

theorem occurs_blank {mark : List Char} (hm : ∀ c ∈ mark, isBlank c = false) (hne : mark ≠ [])
    (h : isBlank c = true) (s : List Char) :
    occurs mark (c :: s) = true ↔ occurs mark s = true := by
  rw [occurs_cons_iff, or_iff_right]
  rintro ⟨r, hr⟩
  cases mark with
  | nil => exact hne rfl
  | cons m mark =>
      have hmark := hm m List.mem_cons_self
      rw [(List.cons.inj hr).1, h] at hmark
      cases hmark

theorem prefix_append_blank {mark : List Char} (hm : ∀ d ∈ mark, isBlank d = false)
    (hc : isBlank c = true) : mark <+: s ++ c :: t ↔ mark <+: s := by
  induction mark generalizing s with
  | nil => exact iff_of_true List.nil_prefix List.nil_prefix
  | cons m mark ih =>
      have hmark := hm m List.mem_cons_self
      cases s with
      | nil =>
          refine iff_of_false (fun hp => ?_) fun hp => List.cons_ne_nil m mark (List.prefix_nil.1 hp)
          rw [(List.cons_prefix_cons.1 hp).1, hc] at hmark
          cases hmark
      | cons d s =>
          rw [List.cons_append, List.cons_prefix_cons, List.cons_prefix_cons,
            ih fun e he => hm e (List.mem_cons_of_mem m he)]

/-- A mark without blanks stands on one side of a blank. -/
theorem occurs_append_blank {mark : List Char} (hm : ∀ d ∈ mark, isBlank d = false)
    (hne : mark ≠ []) (hc : isBlank c = true) :
    occurs mark (s ++ c :: t) = true ↔ occurs mark s = true ∨ occurs mark t = true := by
  induction s with
  | nil =>
      have hnone : occurs mark [] = false := by
        cases mark with
        | nil => exact absurd rfl hne
        | cons m mark => rfl
      rw [List.nil_append, occurs_blank hm hne hc, hnone, or_iff_right Bool.false_ne_true]
  | cons d s ih =>
      have hprefix := prefix_append_blank (s := d :: s) (t := t) hm hc
      rw [List.cons_append] at hprefix
      rw [List.cons_append, occurs_cons_iff, occurs_cons_iff, ih, hprefix, or_assoc]

theorem occurs_squeeze {mark : List Char} (hm : ∀ c ∈ mark, isBlank c = false)
    (hne : mark ≠ []) : occurs mark (squeeze after s) = true ↔ occurs mark s = true := by
  induction s generalizing after with
  | nil => rfl
  | cons c s ih =>
      cases hc : isBlank c with
      | true =>
          rw [squeeze_blank hc, occurs_blank hm hne hc]
          cases after with
          | true => exact ih
          | false => exact (occurs_blank hm hne (by decide) _).trans ih
      | false =>
          have hprefix := prefix_squeeze (s := c :: s) hm
          rw [squeeze_cons hc] at hprefix ⊢
          rw [occurs_cons_iff, occurs_cons_iff, ih, hprefix]

theorem stops_squeeze {p : Char → Bool} (hp : p ' ' = false) (h : Stops p s) :
    Stops p (squeeze false s) := by
  cases s with
  | nil => exact h
  | cons c s =>
      cases hc : isBlank c with
      | true =>
          rw [squeeze_blank hc]
          exact stops_cons hp _
      | false =>
          rw [squeeze_cons hc]
          exact stops_cons (h c rfl) _

end Squeeze

/-! ## Identifiers -/

theorem stops_ident {gap : List Char} (hgap : allBlank gap = true) : Stops isIdentChar gap :=
  (stops_blank hgap).mono fun _ => isWordChar_of_isIdentChar

theorem identifiers_skip {gap : List Char} (hgap : allBlank gap = true) (s : List Char) :
    identifiers (gap ++ s) = identifiers s := by
  induction gap with
  | nil => rfl
  | cons c gap ih =>
      rw [allBlank, List.all_cons, Bool.and_eq_true] at hgap
      have hstart : isIdentStart c = false := by
        rw [Bool.eq_false_iff]
        intro hc
        rw [not_isBlank_of_isIdentChar (isIdentChar_of_isIdentStart hc)] at hgap
        cases hgap.1
      rw [List.cons_append, identifiers_other hstart (ne_of_isBlank hgap.1 (by decide)), ih hgap.2]

theorem identifiers_pad {gap : List Char} (hgap : allBlank gap = true) (s : List Char) :
    identifiers (s ++ gap) = identifiers s := by
  have hnone := identifiers_skip hgap []
  rw [List.append_nil, identifiers_nil] at hnone
  rw [identifiers_append (stops_ident hgap), hnone, List.append_nil]

theorem identifiers_squeeze {after : Bool} {s : List Char} (h : '@' ∉ s) :
    identifiers (squeeze after s) = identifiers s := by
  fun_induction pieces s generalizing after with
  | case1 => rfl
  | case2 c rest _ hc ih =>
      have hstart : isIdentStart c = true := by
        have hne : c ≠ '@' := fun e => h (e ▸ List.mem_cons_self)
        simpa [hne] using hc
      have hword := isWord_cons hstart rest
      have hblank : ∀ d ∈ c :: rest.takeWhile isIdentChar, isBlank d = false :=
        fun d hd => not_isBlank_of_isIdentChar (hword.inside d hd)
      have hsplit : c :: rest = (c :: rest.takeWhile isIdentChar) ++ rest.dropWhile isIdentChar := by
        rw [List.cons_append, List.takeWhile_append_dropWhile]
      have hrest : '@' ∉ rest.dropWhile isIdentChar := fun hmem =>
        h (List.mem_cons_of_mem _ ((List.dropWhile_suffix _).mem hmem))
      have hstops := stops_dropWhile isIdentChar rest
      rw [hsplit, squeeze_run hblank (List.cons_ne_nil _ _),
        identifiers_word hword (stops_squeeze rfl hstops), identifiers_word hword hstops, ih hrest]
  | case3 c rest _ hc ih =>
      simp only [Bool.or_eq_true, not_or, Bool.not_eq_true] at hc
      have hne : c ≠ '@' := fun e => h (e ▸ List.mem_cons_self)
      have hrest : '@' ∉ rest := fun hmem => h (List.mem_cons_of_mem _ hmem)
      rw [identifiers_other hc.1 hne]
      cases hblank : isBlank c with
      | true =>
          rw [squeeze_blank hblank]
          cases after with
          | true => exact ih hrest
          | false => exact (identifiers_other (c := ' ') rfl (by decide) _).trans (ih hrest)
      | false => rw [squeeze_cons hblank, identifiers_other hc.1 hne, ih hrest]

end Declaration
end DocPages
