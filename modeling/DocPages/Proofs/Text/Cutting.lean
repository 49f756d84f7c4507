/-
Where texts are cut, when it is known what they are made of.
-/
import DocPages.Text.Cut

namespace DocPages
namespace Text

/-- What holds of all members of a list is told by going through the list, and not through
all characters. -/
scoped instance (priority := high) decidableForallMem {α : Type} (s : List α) (p : α → Prop)
    [DecidablePred p] : Decidable (∀ c ∈ s, p c) :=
  List.decidableBAll p s

/-! ## Runs of characters -/

/-- The next character, if there is one, is not of the class. -/
def Stops (p : Char → Bool) (s : List Char) : Prop := ∀ c, s.head? = some c → p c = false

theorem stops_nil (p : Char → Bool) : Stops p [] := nofun

theorem stops_cons {p : Char → Bool} {c : Char} (h : p c = false) (s : List Char) :
    Stops p (c :: s) := by
  intro d hd
  cases hd
  exact h

theorem stops_append {p : Char → Bool} {s r : List Char} (hs : Stops p s) (hr : Stops p r) :
    Stops p (s ++ r) := by
  cases s with
  | nil => exact hr
  | cons d s => exact stops_cons (hs d rfl) _

/-- What follows a text says nothing about its first character. -/
theorem Stops.mono {p q : Char → Bool} {s : List Char} (h : Stops p s)
    (hpq : ∀ c, q c = true → p c = true) : Stops q s := by
  intro c hc
  rw [Bool.eq_false_iff]
  intro hq
  have hp := hpq c hq
  rw [h c hc] at hp
  cases hp

theorem Stops.of_append {p : Char → Bool} {s t : List Char} (h : Stops p (s ++ t)) : Stops p s := by
  cases s with
  | nil => exact stops_nil p
  | cons c s => exact stops_cons (h c rfl) s

theorem Stops.append_right {p : Char → Bool} {s : List Char} (h : Stops p s) (hne : s ≠ [])
    (t : List Char) : Stops p (s ++ t) := by
  cases s with
  | nil => exact absurd rfl hne
  | cons d s => exact stops_cons (h d rfl) _

theorem takeWhile_append_stops {p : Char → Bool} {run rest : List Char}
    (hrun : ∀ c ∈ run, p c = true) (hrest : Stops p rest) : (run ++ rest).takeWhile p = run := by
  rw [List.takeWhile_append_of_pos hrun]
  cases rest with
  | nil => simp
  | cons c rest => rw [List.takeWhile_cons_of_neg (by simp [hrest c rfl]), List.append_nil]

theorem dropWhile_append_stops {p : Char → Bool} {run rest : List Char}
    (hrun : ∀ c ∈ run, p c = true) (hrest : Stops p rest) : (run ++ rest).dropWhile p = rest := by
  rw [List.dropWhile_append_of_pos hrun]
  cases rest with
  | nil => rfl
  | cons c rest => rw [List.dropWhile_cons_of_neg (by simp [hrest c rfl])]

theorem stops_dropWhile (p : Char → Bool) (s : List Char) : Stops p (s.dropWhile p) := by
  intro c hc
  have hnot := List.head?_dropWhile_not p s
  rw [hc] at hnot
  simpa using hnot

/-- A text starts with a run of characters of a class, which may be empty. -/
theorem exists_run (p : Char → Bool) (s : List Char) :
    ∃ run rest, s = run ++ rest ∧ (∀ c ∈ run, p c = true) ∧ Stops p rest :=
  ⟨s.takeWhile p, s.dropWhile p, (List.takeWhile_append_dropWhile).symm,
    List.all_eq_true.1 List.all_takeWhile, stops_dropWhile p s⟩

theorem takeWhile_append_of_stops {p : Char → Bool} {r : List Char} (hr : Stops p r)
    (s : List Char) :
    (s ++ r).takeWhile p = s.takeWhile p ∧ (s ++ r).dropWhile p = s.dropWhile p ++ r := by
  obtain ⟨run, rest, rfl, hrun, hrest⟩ := exists_run p s
  rw [List.append_assoc, takeWhile_append_stops hrun (stops_append hrest hr),
    dropWhile_append_stops hrun (stops_append hrest hr), takeWhile_append_stops hrun hrest,
    dropWhile_append_stops hrun hrest]
  exact ⟨rfl, rfl⟩

/-! ## Marks -/

theorem stripStart?_append (mark rest : List Char) :
    stripStart? mark (mark ++ rest) = some rest :=
  stripStart?_eq_some.2 rfl

theorem stripStart?_cons_ne {m c : Char} (h : m ≠ c) (mark s : List Char) :
    stripStart? (m :: mark) (c :: s) = none := by
  rw [stripStart?, if_neg h]

theorem stripEnd?_eq_some {mark s front : List Char} :
    stripEnd? mark s = some front ↔ s = front ++ mark := by
  rw [stripEnd?, Option.map_eq_some_iff]
  constructor
  · rintro ⟨rest, hrest, rfl⟩
    have := congrArg List.reverse (stripStart?_eq_some.1 hrest)
    simpa using this
  · rintro rfl
    exact ⟨front.reverse, stripStart?_eq_some.2 (by simp), by simp⟩

theorem breakOn_cons_of_none {mark s : List Char} {c : Char}
    (h : stripStart? mark (c :: s) = none) :
    breakOn mark (c :: s) = (breakOn mark s).map fun cut => (c :: cut.1, cut.2) := by
  rw [breakOn, h]

/-- The first of a character is found where it stands. -/
theorem breakOn_char {m : Char} {before : List Char} (h : m ∉ before) (after : List Char) :
    breakOn [m] (before ++ m :: after) = some (before, after) := by
  induction before with
  | nil =>
      rw [List.nil_append, breakOn, stripStart?, if_pos rfl]
      rfl
  | cons c rest ih =>
      rw [List.mem_cons, not_or] at h
      rw [List.cons_append, breakOn_cons_of_none (stripStart?_cons_ne h.1 _ _), ih h.2]
      rfl

theorem breakOn_char_none {m : Char} {s : List Char} (h : m ∉ s) : breakOn [m] s = none := by
  cases hb : breakOn [m] s with
  | none => rfl
  | some cut =>
      refine absurd ?_ h
      rw [breakOn_eq hb]
      simp

theorem not_infix_of_breakOn {mark s : List Char} (h : breakOn mark s = none) : ¬mark <:+: s := by
  induction s with
  | nil =>
      rw [List.infix_nil]
      rintro rfl
      cases h
  | cons c s ih =>
      rw [breakOn] at h
      split at h
      · cases h
      · rename_i hstart
        rw [List.infix_cons_iff]
        rintro (⟨t, ht⟩ | hrest)
        · rw [stripStart?_eq_some.2 ht.symm] at hstart
          cases hstart
        · exact ih (Option.map_eq_none_iff.1 h) hrest

/-- `s` is `before`, `mark` and `after`, and the mark stands nowhere further left. -/
def FirstAt (mark s before after : List Char) : Prop :=
  s = before ++ mark ++ after ∧ ∀ b a, s = b ++ mark ++ a → before.length ≤ b.length

theorem firstAt_of_start {mark s rest before after : List Char} (h : s = mark ++ rest) :
    FirstAt mark s before after ↔ before = [] ∧ after = rest := by
  constructor
  · rintro ⟨hs, hleast⟩
    have hnil : before = [] := List.eq_nil_of_length_eq_zero (Nat.le_zero.1 (hleast [] rest h))
    rw [hnil, List.nil_append, h] at hs
    exact ⟨hnil, (List.append_cancel_left hs).symm⟩
  · rintro ⟨rfl, rfl⟩
    exact ⟨h, fun _ _ _ => Nat.zero_le _⟩

theorem firstAt_cons {mark s before after : List Char} {c : Char}
    (h : stripStart? mark (c :: s) = none) :
    FirstAt mark (c :: s) before after ↔ ∃ b, before = c :: b ∧ FirstAt mark s b after := by
  have hne : ∀ rest, c :: s ≠ [] ++ mark ++ rest := fun rest he =>
    absurd (stripStart?_eq_some.2 he) (by rw [List.nil_append, h]; exact nofun)
  constructor
  · rintro ⟨hs, hleast⟩
    cases before with
    | nil => exact absurd hs (hne after)
    | cons d b =>
        obtain ⟨rfl, hrest⟩ := List.cons.inj hs
        exact ⟨b, rfl, hrest, fun b' a hb =>
          Nat.le_of_succ_le_succ (hleast (c :: b') a (congrArg (c :: ·) hb))⟩
  · rintro ⟨b, rfl, hs, hleast⟩
    refine ⟨congrArg (c :: ·) hs, ?_⟩
    intro b' a hb
    cases b' with
    | nil => exact absurd hb (hne a)
    | cons d b' => exact Nat.succ_le_succ (hleast b' a (List.cons.inj hb).2)

theorem breakOn_eq_some_iff {mark : List Char} (hm : mark ≠ []) {s before after : List Char} :
    breakOn mark s = some (before, after) ↔ FirstAt mark s before after := by
  induction s generalizing before with
  | nil => simp [breakOn, FirstAt, hm]
  | cons c rest ih =>
      rw [breakOn]
      split
      · rename_i after' hstart
        rw [firstAt_of_start (stripStart?_eq_some.1 hstart), Option.some.injEq, Prod.mk.injEq,
          eq_comm, @eq_comm _ after']
      · rename_i hnone
        rw [firstAt_cons hnone, Option.map_eq_some_iff]
        constructor
        · rintro ⟨⟨b, a⟩, hb, heq⟩
          cases heq
          exact ⟨b, rfl, ih.1 hb⟩
        · rintro ⟨b, rfl, hb⟩
          exact ⟨(b, after), ih.2 hb, rfl⟩

/-- The first mark of a text stays the first when more text follows. -/
theorem FirstAt.append_right {mark s before after : List Char} (h : FirstAt mark s before after)
    (t : List Char) : FirstAt mark (s ++ t) before (after ++ t) := by
  obtain ⟨rfl, hleast⟩ := h
  refine ⟨List.append_assoc _ _ _, ?_⟩
  intro b a hb
  apply Nat.le_of_not_lt
  intro hlt
  have hshort : (b ++ mark).length ≤ (before ++ mark ++ after).length := by
    simp only [List.length_append]
    omega
  have hprefix : b ++ mark <+: before ++ mark ++ after :=
    List.prefix_of_prefix_length_le ⟨a, hb.symm⟩ (List.prefix_append _ t) hshort
  obtain ⟨a', ha'⟩ := hprefix
  exact absurd (hleast b a' ha'.symm) (Nat.not_le_of_lt hlt)

/-- A text that does not hold a character does not reach beyond its first place. -/
theorem prefix_of_prefix_append_cons {mark s t : List Char} {c : Char}
    (h : mark <+: s ++ c :: t) (hc : c ∉ mark) : mark <+: s := by
  rcases List.prefix_or_prefix_of_prefix h (List.prefix_append s (c :: t)) with hmark | hs
  · exact hmark
  · obtain ⟨more, rfl⟩ := hs
    rw [List.prefix_append_right_inj] at h
    cases more with
    | nil => exact ⟨[], by rw [List.append_nil, List.append_nil]⟩
    | cons d more =>
        obtain ⟨rfl, _⟩ := List.cons_prefix_cons.1 h
        exact absurd (List.mem_append_right s List.mem_cons_self) hc

/-! ## Blanks -/

theorem trimStart_of_stops {s : List Char} (h : Stops isBlank s) : trimStart s = s := by
  rw [trimStart, ← List.nil_append s]
  exact dropWhile_append_stops nofun h

theorem trimStart_blank {c : Char} (h : isBlank c = true) (s : List Char) :
    trimStart (c :: s) = trimStart s :=
  List.dropWhile_cons_of_pos h

theorem trimEnd_of_stops {s : List Char} (h : Stops isBlank s.reverse) : trimEnd s = s := by
  have := trimStart_of_stops h
  rw [trimStart] at this
  rw [trimEnd, this, List.reverse_reverse]

theorem exists_trimEnd (s : List Char) : ∃ gap, allBlank gap = true ∧ s = trimEnd s ++ gap := by
  refine ⟨(s.reverse.takeWhile isBlank).reverse, ?_, ?_⟩
  · rw [allBlank, List.all_reverse]
    exact List.all_takeWhile
  · rw [trimEnd, ← List.reverse_append, List.takeWhile_append_dropWhile, List.reverse_reverse]

theorem trimEnd_isPrefix (s : List Char) : trimEnd s <+: s := by
  rw [trimEnd, ← List.reverse_suffix, List.reverse_reverse]
  exact List.dropWhile_suffix isBlank

theorem infix_trim (s : List Char) : trim s <:+: s :=
  (trimEnd_isPrefix _).isInfix.trans (List.dropWhile_suffix isBlank).isInfix

theorem trimEnd_append_cons {c : Char} (hc : isBlank c = false) (s t : List Char) :
    trimEnd (s ++ c :: t) = s ++ c :: trimEnd t := by
  have hstops : Stops isBlank ([c] ++ s.reverse) := stops_cons hc _
  rw [trimEnd, trimEnd, List.reverse_append, List.reverse_cons, List.append_assoc,
    (takeWhile_append_of_stops hstops t.reverse).2]
  simp

/-- Blanks in front of a text, and at its end, are trimmed. -/
theorem trim_indented {indent : List Char} (hindent : allBlank indent = true) {c : Char}
    (hc : isBlank c = false) (s : List Char) : trim (indent ++ c :: s) = c :: trimEnd s := by
  have hstart : trimStart (indent ++ c :: s) = c :: s :=
    dropWhile_append_stops (List.all_eq_true.1 hindent) (stops_cons hc s)
  rw [trim, hstart]
  exact trimEnd_append_cons hc [] s

theorem trimEnd_trimEnd (s : List Char) : trimEnd (trimEnd s) = trimEnd s := by
  apply trimEnd_of_stops
  rw [trimEnd, List.reverse_reverse]
  exact stops_dropWhile isBlank _

theorem trim_trimEnd (s : List Char) : trim (trimEnd s) = trim s := by
  obtain ⟨indent, body, rfl, hindent, hbody⟩ := exists_run isBlank s
  have hblank : allBlank indent = true := List.all_eq_true.2 hindent
  cases body with
  | nil =>
      have hend : trimEnd (indent ++ []) = [] := by
        have hrun : ∀ c ∈ indent.reverse, isBlank c = true := fun c hc =>
          hindent c (List.mem_reverse.1 hc)
        rw [List.append_nil, trimEnd, ← List.append_nil indent.reverse,
          dropWhile_append_stops hrun (stops_nil isBlank)]
        rfl
      have hstart : trimStart (indent ++ []) = [] :=
        dropWhile_append_stops hindent (stops_nil isBlank)
      rw [hend, trim, trim, hstart]
      rfl
  | cons c body =>
      have hc : isBlank c = false := hbody c rfl
      rw [trimEnd_append_cons hc, trim_indented hblank hc, trim_indented hblank hc,
        trimEnd_trimEnd]

theorem trim_of_stops {s : List Char} (hs : Stops isBlank s) (he : Stops isBlank s.reverse) :
    trim s = s := by
  rw [trim, trimStart_of_stops hs, trimEnd_of_stops he]

/-- A text without blanks has none at its ends. -/
theorem trim_of_noBlank {s : List Char} (h : ∀ c ∈ s, isBlank c = false) : trim s = s := by
  apply trim_of_stops
  · intro c hc
    exact h c (List.mem_of_mem_head? hc)
  · intro c hc
    exact h c (List.mem_reverse.1 (List.mem_of_mem_head? hc))

/-- The code points of the blanks. -/
def blankCodes : List Nat :=
  [0x9, 0xa, 0xb, 0xc, 0xd, 0x20, 0x85, 0xa0, 0x1680, 0x2000, 0x2001, 0x2002, 0x2003, 0x2004,
   0x2005, 0x2006, 0x2007, 0x2008, 0x2009, 0x200a, 0x2028, 0x2029, 0x202f, 0x205f, 0x3000]

theorem exists_run_of_covers {runs : List Run} {n : Nat} (h : covers runs n = true) :
    ∃ r ∈ runs, r.1 ≤ n ∧ n ≤ r.2.1 := by
  induction runs with
  | nil => cases h
  | cons r rest ih =>
      rw [covers] at h
      split at h
      · cases h
      · rcases Bool.or_eq_true _ _ |>.mp h with hr | hrest
        · simp only [Run.covers, Bool.and_eq_true, decide_eq_true_eq] at hr
          exact ⟨r, List.mem_cons_self, hr.1⟩
        · obtain ⟨r', hr', hle⟩ := ih hrest
          exact ⟨r', List.mem_cons_of_mem _ hr', hle⟩

theorem mem_blankCodes {c : Char} (h : isBlank c = true) : c.toNat ∈ blankCodes := by
  obtain ⟨r, hr, hlo, hhi⟩ := exists_run_of_covers h
  simp only [blankCodes, List.mem_cons, List.not_mem_nil, or_false]
  simp only [blankRuns, List.mem_cons, List.not_mem_nil, or_false] at hr
  rcases hr with rfl | rfl | rfl | rfl | rfl | rfl | rfl | rfl | rfl | rfl <;>
    simp only at hlo hhi <;> omega

/-- A class of characters that holds no blank code point holds no blank. -/
theorem not_blank_of_codes {p : Char → Bool}
    (hp : ∀ n ∈ blankCodes, p (Char.ofNat n) = false) {c : Char} (h : p c = true) :
    isBlank c = false := by
  cases hb : isBlank c with
  | false => rfl
  | true =>
      have := hp c.toNat (mem_blankCodes hb)
      rw [Char.ofNat_toNat, h] at this
      cases this

/-! ## Bytes -/

theorem byteLength_append (a b : List Char) :
    byteLength (a ++ b) = byteLength a + byteLength b := by
  induction a with
  | nil => exact (Nat.zero_add _).symm
  | cons c rest ih =>
      show c.utf8Size + byteLength (rest ++ b) = c.utf8Size + byteLength rest + byteLength b
      rw [ih, Nat.add_assoc]

theorem byteLength_cons (c : Char) (s : List Char) :
    byteLength (c :: s) = c.utf8Size + byteLength s := rfl

end Text
end DocPages
