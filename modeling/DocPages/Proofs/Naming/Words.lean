/-
The words of a name.

The words of a name hold its letters and digits, all of them and in their order.  Two neighbours
are in one word unless one of four rules lets a new word start between them (`Boundary`):
`words_lossless`.

A name is read with the word in hand, and a character ends that word or goes into it
(`wordsFrom_cons`).  So a name can be cut at any place, into words that are done there and a word
in hand (`wordsFrom_append`), and what happens at the place is told by these two.
-/
import DocPages.Naming

namespace DocPages
namespace Naming

open Text

/-! ## Where a word starts -/

/-- The rules by which a new word starts at `c`, right behind `prev` and in front of `next`. -/
inductive Boundary (prev c : Char) (next : Option Char) : Prop where
  | capital (hprev : isLower prev = true) (hc : isUpper c = true)
  | number (hprev : isAlphabetic prev = true) (hc : c.isDigit = true)
  | letter (hprev : prev.isDigit = true) (hc : isAlphabetic c = true)
  | acronym (hprev : isUpper prev = true) (hc : isUpper c = true) (small : Char)
      (hnext : next = some small) (hsmall : isLower small = true)

theorem startsWord_iff {prev c : Char} {next : Option Char} :
    startsWord prev c next = true ↔ Boundary prev c next := by
  simp only [startsWord, Bool.or_eq_true, Bool.and_eq_true, or_assoc]
  constructor
  · intro h
    rcases h with h | h | h | h
    · exact .capital h.1 h.2
    · exact .number h.1 h.2
    · exact .letter h.1 h.2
    · cases next with
      | none => exact absurd h.2 Bool.false_ne_true
      | some small => exact .acronym h.1.1 h.1.2 small rfl h.2
  · intro h
    cases h with
    | capital hprev hc => exact .inl ⟨hprev, hc⟩
    | number hprev hc => exact .inr (.inl ⟨hprev, hc⟩)
    | letter hprev hc => exact .inr (.inr (.inl ⟨hprev, hc⟩))
    | acronym hprev hc small hnext hsmall =>
        subst hnext
        exact .inr (.inr (.inr ⟨⟨hprev, hc⟩, hsmall⟩))

/-- Does the word in hand end in front of `c`?  It does at a separator, and where a new word
starts. -/
def endsBefore (word : List Char) (c : Char) (next : Option Char) : Bool :=
  !isAlphanumeric c || word.head?.any (startsWord · c next)

theorem isAlphanumeric_of_not_endsBefore {word : List Char} {c : Char} {next : Option Char}
    (h : ¬ endsBefore word c next = true) : isAlphanumeric c = true := by
  by_cases hc : isAlphanumeric c = true
  · exact hc
  · exact absurd (by simp [endsBefore, hc]) h

/-- A character that ends the word in hand is the first of the next, unless it separates. -/
theorem wordsFrom_cons (word : List Char) (c : Char) (rest : List Char) :
    wordsFrom word (c :: rest) =
      if endsBefore word c rest.head? = true then
        finish word ++ wordsFrom ([c].filter isAlphanumeric) rest
      else wordsFrom (c :: word) rest := by
  rw [wordsFrom.eq_def]
  by_cases hc : isAlphanumeric c = true
  · cases word with
    | nil => simp [endsBefore, hc]
    | cons prev more => simp [endsBefore, hc]
  · simp [endsBefore, hc]

/-! ## What the words hold -/

theorem flatten_finish (word : List Char) : (finish word).flatten = word.reverse := by
  cases word with
  | nil => rfl
  | cons c more => simp [finish]

theorem flatten_wordsFrom (word s : List Char) :
    (wordsFrom word s).flatten = word.reverse ++ s.filter isAlphanumeric := by
  induction s generalizing word with
  | nil => rw [wordsFrom, flatten_finish, List.filter_nil, List.append_nil]
  | cons c rest ih =>
      rw [wordsFrom_cons]
      by_cases hend : endsBefore word c rest.head? = true
      · rw [if_pos hend, List.flatten_append, flatten_finish, ih, List.append_cancel_left_eq,
          ← List.singleton_append, List.filter_append]
        by_cases hc : isAlphanumeric c = true <;> simp [hc]
      · rw [if_neg hend, ih, List.filter_cons_of_pos (isAlphanumeric_of_not_endsBefore hend),
          List.reverse_cons, List.append_assoc, List.singleton_append]

theorem ne_nil_of_mem_finish {word w : List Char} (h : w ∈ finish word) : w ≠ [] := by
  cases word with
  | nil => cases h
  | cons c more =>
      rw [List.mem_singleton.1 h]
      simp

theorem ne_nil_of_mem_wordsFrom {word s w : List Char} (h : w ∈ wordsFrom word s) : w ≠ [] := by
  induction s generalizing word with
  | nil => exact ne_nil_of_mem_finish h
  | cons c rest ih =>
      rw [wordsFrom_cons] at h
      by_cases hend : endsBefore word c rest.head? = true
      · rw [if_pos hend] at h
        rcases List.mem_append.1 h with hw | hw
        · exact ne_nil_of_mem_finish hw
        · exact ih hw
      · rw [if_neg hend] at h
        exact ih h

/-- The words of a name have the letters and digits of the name. -/
theorem mem_filter_of_mem_word {s w : List Char} (h : w ∈ wordsFrom [] s) {c : Char} (hc : c ∈ w) :
    c ∈ s.filter isAlphanumeric := by
  have hflat : c ∈ (wordsFrom [] s).flatten := List.mem_flatten.2 ⟨w, h, hc⟩
  rwa [flatten_wordsFrom, List.reverse_nil, List.nil_append] at hflat

theorem mem_of_mem_word {s w : List Char} (h : w ∈ wordsFrom [] s) {c : Char} (hc : c ∈ w) :
    c ∈ s :=
  (List.mem_filter.1 (mem_filter_of_mem_word h hc)).1

theorem isAlphanumeric_of_mem_word {s w : List Char} (h : w ∈ wordsFrom [] s) {c : Char}
    (hc : c ∈ w) : isAlphanumeric c = true :=
  (List.mem_filter.1 (mem_filter_of_mem_word h hc)).2

/-- A name has no words if it has neither letters nor digits. -/
theorem wordsFrom_eq_nil_iff {s : List Char} :
    wordsFrom [] s = [] ↔ ∀ c ∈ s, isAlphanumeric c = false := by
  have hflat : (wordsFrom [] s).flatten = s.filter isAlphanumeric := flatten_wordsFrom [] s
  constructor
  · intro h
    rw [h, List.flatten_nil, eq_comm, List.filter_eq_nil_iff] at hflat
    exact fun c hc => Bool.eq_false_iff.2 (hflat c hc)
  · intro h
    rw [List.filter_eq_nil_iff.2 fun c hc => Bool.eq_false_iff.1 (h c hc),
      List.flatten_eq_nil_iff] at hflat
    exact List.eq_nil_iff_forall_not_mem.2 fun w hw => ne_nil_of_mem_wordsFrom hw (hflat w hw)

/-! ## A place in a name -/

/-- At any place of a name there are words that are done and a word in hand. -/
theorem wordsFrom_append (word a b : List Char) :
    ∃ done held, wordsFrom word (a ++ b) = done ++ wordsFrom held b ∧
      done.flatten ++ held.reverse = word.reverse ++ a.filter isAlphanumeric := by
  induction a generalizing word with
  | nil => exact ⟨[], word, rfl, by simp⟩
  | cons c rest ih =>
      rw [List.cons_append, wordsFrom_cons]
      by_cases hend : endsBefore word c (rest ++ b).head? = true
      · obtain ⟨done, held, hcut, hheld⟩ := ih ([c].filter isAlphanumeric)
        refine ⟨finish word ++ done, held, ?_, ?_⟩
        · rw [if_pos hend, hcut, List.append_assoc]
        · rw [List.flatten_append, flatten_finish, List.append_assoc, hheld,
            List.append_cancel_left_eq, ← List.singleton_append, List.filter_append]
          by_cases hc : isAlphanumeric c = true <;> simp [hc]
      · obtain ⟨done, held, hcut, hheld⟩ := ih (c :: word)
        refine ⟨done, held, ?_, ?_⟩
        · rw [if_neg hend, hcut]
        · rw [hheld, List.filter_cons_of_pos (isAlphanumeric_of_not_endsBefore hend),
            List.reverse_cons, List.append_assoc, List.singleton_append]

/-- Behind a letter or digit the word in hand ends with it. -/
theorem wordsFrom_behind {c : Char} (hc : isAlphanumeric c = true) (before rest : List Char) :
    ∃ done more, wordsFrom [] (before ++ c :: rest) = done ++ wordsFrom (c :: more) rest ∧
      done.flatten ++ more.reverse = before.filter isAlphanumeric := by
  obtain ⟨done, held, hcut, hheld⟩ := wordsFrom_append [] before (c :: rest)
  rw [List.reverse_nil, List.nil_append] at hheld
  rw [wordsFrom_cons] at hcut
  by_cases hend : endsBefore held c rest.head? = true
  · rw [if_pos hend, List.filter_cons_of_pos hc, List.filter_nil, ← List.append_assoc] at hcut
    refine ⟨done ++ finish held, [], hcut, ?_⟩
    rw [List.flatten_append, flatten_finish, hheld, List.reverse_nil, List.append_nil]
  · rw [if_neg hend] at hcut
    exact ⟨done, held, hcut, hheld⟩

/-- The word in hand is the start of the next word. -/
theorem wordsFrom_held {word : List Char} (h : word ≠ []) (s : List Char) :
    ∃ back later, wordsFrom word s = (word.reverse ++ back) :: later := by
  induction s generalizing word with
  | nil =>
      refine ⟨[], [], ?_⟩
      rw [wordsFrom, finish, List.append_nil, if_neg]
      rwa [List.isEmpty_iff]
  | cons c rest ih =>
      rw [wordsFrom_cons]
      by_cases hend : endsBefore word c rest.head? = true
      · refine ⟨[], wordsFrom ([c].filter isAlphanumeric) rest, ?_⟩
        rw [if_pos hend, finish, List.append_nil, if_neg, List.singleton_append]
        rwa [List.isEmpty_iff]
      · obtain ⟨back, later, hback⟩ := ih (List.cons_ne_nil c word)
        refine ⟨c :: back, later, ?_⟩
        rw [if_neg hend, hback, List.reverse_cons, List.append_assoc, List.singleton_append]

/-! ## Neighbours -/

/-- `c` and `d`, which stand next to each other behind `before` in a name, do so in a word.  The
words put together are the letters and digits of the name, so the place is told by those of
`before`. -/
def Together (parts : List (List Char)) (before : List Char) (c d : Char) : Prop :=
  ∃ earlier front back later, parts = earlier ++ (front ++ c :: d :: back) :: later ∧
    earlier.flatten ++ front = before.filter isAlphanumeric

/-- Where one word ends, no other goes on. -/
theorem flatten_ne_of_inside {a b earlier later : List (List Char)} {front back : List Char}
    {c d : Char} (h : a ++ b = earlier ++ (front ++ c :: d :: back) :: later) :
    a.flatten ≠ earlier.flatten ++ front ++ [c] := by
  intro hflat
  have hlength := congrArg List.length hflat
  rcases List.append_eq_append_iff.1 h with ⟨more, hearlier, _⟩ | ⟨more, ha, hmore⟩
  · rw [hearlier, List.flatten_append] at hlength
    simp only [List.length_append, List.length_singleton] at hlength
    omega
  · cases more with
    | nil =>
        rw [ha, List.append_nil] at hlength
        simp only [List.length_append, List.length_singleton] at hlength
        omega
    | cons first more =>
        obtain ⟨hfirst, _⟩ := List.cons.inj hmore
        rw [ha, ← hfirst, List.flatten_append, List.flatten_cons] at hlength
        simp only [List.length_append, List.length_cons, List.length_nil] at hlength
        omega

theorem together_iff (before after : List Char) (c d : Char) :
    Together (wordsFrom [] (before ++ c :: d :: after)) before c d ↔
      isAlphanumeric c = true ∧ isAlphanumeric d = true ∧ ¬ Boundary c d after.head? := by
  have hends : ∀ more, isAlphanumeric d = true →
      endsBefore (c :: more) d after.head? = startsWord c d after.head? := by
    intro more hd
    simp [endsBefore, hd]
  rw [← startsWord_iff]
  constructor
  · intro htogether
    obtain ⟨earlier, front, back, later, hparts, hplace⟩ := htogether
    have hword : front ++ c :: d :: back ∈ wordsFrom [] (before ++ c :: d :: after) := by
      rw [hparts]
      exact List.mem_append_right _ List.mem_cons_self
    have hc : isAlphanumeric c = true := isAlphanumeric_of_mem_word hword (by simp)
    have hd : isAlphanumeric d = true := isAlphanumeric_of_mem_word hword (by simp)
    refine ⟨hc, hd, fun hstart => ?_⟩
    -- The word of `c` is done in front of `d`.
    obtain ⟨done, more, hcut, hdone⟩ := wordsFrom_behind hc before (d :: after)
    rw [wordsFrom_cons, hends more hd, if_pos hstart, hparts, ← List.append_assoc] at hcut
    apply flatten_ne_of_inside hcut.symm
    rw [hplace, ← hdone, List.flatten_append, flatten_finish, List.reverse_cons, List.append_assoc]
  · intro h
    obtain ⟨hc, hd, hstart⟩ := h
    obtain ⟨done, more, hcut, hdone⟩ := wordsFrom_behind hc before (d :: after)
    rw [wordsFrom_cons, hends more hd, if_neg hstart] at hcut
    obtain ⟨back, later, hback⟩ := wordsFrom_held (List.cons_ne_nil d (c :: more)) after
    refine ⟨done, more.reverse, back, later, ?_, hdone⟩
    rw [hcut, hback]
    simp

/-- The words are not empty and hold letters and digits only, and put together they are what the
name has of these.  Neighbours of the name are in one word if both are letters or digits and no
new word starts between them, and otherwise they are not. -/
theorem words_lossless (name : String) :
    (∀ w ∈ words name, w ≠ "" ∧ ∀ c ∈ w.toList, isAlphanumeric c = true) ∧
    (words name).flatMap String.toList = name.toList.filter isAlphanumeric ∧
    ∀ before c d after, name.toList = before ++ c :: d :: after →
      (Together ((words name).map String.toList) before c d ↔
        isAlphanumeric c = true ∧ isAlphanumeric d = true ∧ ¬ Boundary c d after.head?) := by
  have hparts : (words name).map String.toList = wordsFrom [] name.toList := by
    rw [words, List.map_map]
    exact (List.map_congr_left fun w _ => String.toList_ofList).trans (List.map_id _)
  refine ⟨fun w hw => ?_, ?_, ?_⟩
  · have hmem : w.toList ∈ wordsFrom [] name.toList := by
      rw [← hparts]
      exact List.mem_map_of_mem hw
    refine ⟨fun hempty => ?_, fun c hc => isAlphanumeric_of_mem_word hmem hc⟩
    apply ne_nil_of_mem_wordsFrom hmem
    rw [hempty]
    rfl
  · rw [List.flatMap_def, hparts, flatten_wordsFrom, List.reverse_nil, List.nil_append]
  · intro before c d after hname
    rw [hparts, hname]
    exact together_iff before after c d

/-- A separator in front, an acronym, and a digit between letters. -/
def acronymSample : String := "_getHTTPServer2ü"

theorem words_lossless_acronymSample :
    words acronymSample = ["get", "HTTP", "Server", "2", "ü"] ∧
    acronymSample.toList = "_getHTT".toList ++ 'P' :: 'S' :: "erver2ü".toList ∧
    (Together ((words acronymSample).map String.toList) "_getHTT".toList 'P' 'S' ↔
      isAlphanumeric 'P' = true ∧ isAlphanumeric 'S' = true ∧
        ¬ Boundary 'P' 'S' "erver2ü".toList.head?) ∧
    Boundary 'P' 'S' "erver2ü".toList.head? := by
  have hplace : acronymSample.toList = "_getHTT".toList ++ 'P' :: 'S' :: "erver2ü".toList := by
    decide +kernel
  refine ⟨by decide +kernel, hplace, ?_, ?_⟩
  · exact (words_lossless acronymSample).2.2 _ _ _ _ hplace
  · exact .acronym (by decide +kernel) (by decide +kernel) 'e' (by decide +kernel)
      (by decide +kernel)

end Naming
end DocPages
