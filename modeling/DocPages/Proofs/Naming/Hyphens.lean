/-
Names that have been made from other names.

A word is not cut any further (`IsWord`), and a hyphen neither joins words nor moves the places
where words start.  So cutting a page name gives the words that it was joined from, and the page
name of a page name is itself.  Small letters start no words, so in ASCII the same holds of link
targets: `naming_idempotent`.
-/
import DocPages.Proofs.Naming.Words
import DocPages.Proofs.Text.Pieces

namespace DocPages
namespace Naming

open Text

/-! ## Words that stay whole -/

/-- No new word starts inside of `word`, which is held nearest character first and which `next`
follows. -/
def Unbroken (next : Option Char) : List Char → Prop
  | [] => True
  | [_] => True
  | c :: prev :: more => startsWord prev c next = false ∧ Unbroken (some c) (prev :: more)

/-- Letters and digits in which no new word starts. -/
structure IsWord (w : List Char) : Prop where
  ne_nil : w ≠ []
  alphanumeric : ∀ c ∈ w, isAlphanumeric c = true
  unbroken : Unbroken none w.reverse

/-- What follows can only let a word start that would not start at the end of a name. -/
theorem startsWord_end {prev c : Char} {next : Option Char}
    (h : startsWord prev c next = false) : startsWord prev c none = false := by
  rw [Bool.eq_false_iff, Ne, startsWord_iff] at h ⊢
  intro hstart
  apply h
  cases hstart with
  | capital hprev hc => exact .capital hprev hc
  | number hprev hc => exact .number hprev hc
  | letter hprev hc => exact .letter hprev hc
  | acronym hprev hc small hnext hsmall => cases hnext

theorem Unbroken.at_end {next : Option Char} {word : List Char} (h : Unbroken next word) :
    Unbroken none word := by
  cases word with
  | nil => trivial
  | cons c rest =>
      cases rest with
      | nil => trivial
      | cons prev more => exact ⟨startsWord_end h.1, h.2⟩

theorem Unbroken.cons {c : Char} {next : Option Char} {word : List Char}
    (h : Unbroken (some c) word) (hend : ¬ endsBefore word c next = true) :
    Unbroken next (c :: word) := by
  cases word with
  | nil => trivial
  | cons prev more =>
      refine ⟨?_, h⟩
      rw [Bool.eq_false_iff]
      intro hstart
      exact hend (by simp [endsBefore, hstart])

theorem not_endsBefore {c : Char} {next : Option Char} {word : List Char}
    (hc : isAlphanumeric c = true) (h : Unbroken next (c :: word)) :
    ¬ endsBefore word c next = true := by
  cases word with
  | nil => simp [endsBefore, hc]
  | cons prev more => simp [endsBefore, hc, h.1]

theorem isWord_of_mem_finish {word w : List Char} (hword : ∀ c ∈ word, isAlphanumeric c = true)
    (h : Unbroken none word) (hw : w ∈ finish word) : IsWord w := by
  have hne : w ≠ [] := ne_nil_of_mem_finish hw
  cases word with
  | nil => cases hw
  | cons c more =>
      obtain rfl := List.mem_singleton.1 hw
      refine ⟨hne, fun d hd => hword d (List.mem_reverse.1 hd), ?_⟩
      rw [List.reverse_reverse]
      exact h

theorem isWord_of_mem_wordsFrom {word s w : List Char}
    (hword : ∀ c ∈ word, isAlphanumeric c = true) (h : Unbroken s.head? word)
    (hw : w ∈ wordsFrom word s) : IsWord w := by
  induction s generalizing word with
  | nil => exact isWord_of_mem_finish hword h hw
  | cons c rest ih =>
      rw [wordsFrom_cons] at hw
      by_cases hend : endsBefore word c rest.head? = true
      · rw [if_pos hend] at hw
        rcases List.mem_append.1 hw with hw | hw
        · exact isWord_of_mem_finish hword h.at_end hw
        · refine ih (fun d hd => (List.mem_filter.1 hd).2) ?_ hw
          by_cases hc : isAlphanumeric c = true <;> simp [hc, Unbroken]
      · rw [if_neg hend] at hw
        refine ih ?_ (h.cons hend) hw
        intro d hd
        rcases List.mem_cons.1 hd with rfl | hd
        · exact isAlphanumeric_of_not_endsBefore hend
        · exact hword d hd

theorem isWord_of_mem {s w : List Char} (h : w ∈ wordsFrom [] s) : IsWord w :=
  isWord_of_mem_wordsFrom (fun _ hc => absurd hc List.not_mem_nil) trivial h

/-- Reading goes through an unbroken word with all of it in hand. -/
theorem wordsFrom_unbroken {word s : List Char} (hword : ∀ c ∈ word, isAlphanumeric c = true)
    (h : Unbroken s.head? word) : wordsFrom [] (word.reverse ++ s) = wordsFrom word s := by
  induction word generalizing s with
  | nil => rfl
  | cons c more ih =>
      have hmore : Unbroken (some c) more := by
        cases more with
        | nil => trivial
        | cons prev more => exact h.2
      have hc : isAlphanumeric c = true := hword c List.mem_cons_self
      have hread : wordsFrom [] (more.reverse ++ c :: s) = wordsFrom more (c :: s) :=
        ih (fun d hd => hword d (List.mem_cons_of_mem _ hd)) hmore
      rw [List.reverse_cons, List.append_assoc, List.singleton_append, hread, wordsFrom_cons,
        if_neg (not_endsBefore hc h)]

theorem IsWord.wordsFrom_eq {w : List Char} (h : IsWord w) : wordsFrom [] w = [w] := by
  have hread : wordsFrom [] (w.reverse.reverse ++ []) = wordsFrom w.reverse [] :=
    wordsFrom_unbroken (fun c hc => h.alphanumeric c (List.mem_reverse.1 hc)) h.unbroken
  rw [List.reverse_reverse, List.append_nil, wordsFrom, finish, List.isEmpty_reverse,
    List.reverse_reverse, if_neg] at hread
  · exact hread
  · rw [List.isEmpty_iff]
    exact h.ne_nil

/-! ## Hyphens -/

theorem startsWord_hyphen (prev c : Char) :
    startsWord prev c (some '-') = startsWord prev c none := by
  have hsmall : isLower '-' = false := by decide +kernel
  simp [startsWord, hsmall]

/-- Words end at a hyphen, and start behind it. -/
theorem wordsFrom_append_hyphen (word a b : List Char) :
    wordsFrom word (a ++ '-' :: b) = wordsFrom word a ++ wordsFrom [] b := by
  have hhyphen : isAlphanumeric '-' = false := by decide +kernel
  induction a generalizing word with
  | nil => simp [wordsFrom_cons, endsBefore, hhyphen, wordsFrom]
  | cons c rest ih =>
      have hends : endsBefore word c (rest ++ '-' :: b).head? = endsBefore word c rest.head? := by
        cases rest with
        | nil =>
            show endsBefore word c (some '-') = endsBefore word c none
            simp only [endsBefore, startsWord_hyphen]
        | cons d rest => rfl
      rw [List.cons_append, wordsFrom_cons, wordsFrom_cons, hends]
      by_cases hend : endsBefore word c rest.head? = true
      · rw [if_pos hend, if_pos hend, ih, List.append_assoc]
      · rw [if_neg hend, if_neg hend, ih]

/-- Words that are joined by hyphens come back when they are cut. -/
theorem wordsFrom_intercalate {parts : List (List Char)} (h : ∀ w ∈ parts, IsWord w) :
    wordsFrom [] (List.intercalate ['-'] parts) = parts := by
  induction parts with
  | nil => rfl
  | cons w rest ih =>
      have hw : wordsFrom [] w = [w] := (h w List.mem_cons_self).wordsFrom_eq
      cases rest with
      | nil => rw [List.intercalate_singleton, hw]
      | cons next more =>
          rw [List.intercalate_cons_cons, List.append_assoc, List.singleton_append,
            wordsFrom_append_hyphen, hw, ih fun v hv => h v (List.mem_cons_of_mem _ hv),
            List.singleton_append]

theorem hyphenated_of_none {name : List Char} (h : wordsFrom [] name = []) :
    hyphenated name = name := by
  unfold hyphenated
  rw [h]
  rfl

theorem hyphenated_of_words {name : List Char} (h : wordsFrom [] name ≠ []) :
    hyphenated name = List.intercalate ['-'] (wordsFrom [] name) := by
  unfold hyphenated
  exact if_neg (by rwa [List.isEmpty_iff])

theorem wordsFrom_hyphenated (name : List Char) :
    wordsFrom [] (hyphenated name) = wordsFrom [] name := by
  by_cases hnone : wordsFrom [] name = []
  · rw [hyphenated_of_none hnone]
  · rw [hyphenated_of_words hnone]
    exact wordsFrom_intercalate fun w hw => isWord_of_mem hw

theorem hyphenated_hyphenated (name : List Char) :
    hyphenated (hyphenated name) = hyphenated name := by
  by_cases hnone : wordsFrom [] name = []
  · rw [hyphenated_of_none hnone, hyphenated_of_none hnone]
  · have hagain : wordsFrom [] (hyphenated name) ≠ [] := by rwa [wordsFrom_hyphenated]
    rw [hyphenated_of_words hagain, wordsFrom_hyphenated, hyphenated_of_words hnone]

theorem mem_of_mem_hyphenated {name : List Char} {c : Char} (h : c ∈ hyphenated name) :
    c ∈ name ∨ c = '-' := by
  by_cases hnone : wordsFrom [] name = []
  · rw [hyphenated_of_none hnone] at h
    exact .inl h
  · rw [hyphenated_of_words hnone] at h
    rcases mem_of_mem_intercalate h with hsep | ⟨w, hw, hc⟩
    · exact .inr (List.mem_singleton.1 hsep)
    · exact .inl (mem_of_mem_word hw hc)

/-! ## Small letters -/

/-- What holds of the ASCII code points holds of the ASCII characters. -/
theorem of_ascii {p : Char → Prop} (h : ∀ n < 128, p (Char.ofNat n)) {c : Char}
    (hc : c.toNat < 128) : p c := by
  have hcode := h c.toNat hc
  rwa [Char.ofNat_toNat] at hcode

theorem lowerChar_ascii {c : Char} (hc : c.toNat < 128) : lowerChar c = [c.toLower] :=
  of_ascii (p := fun c => lowerChar c = [c.toLower]) (by decide +kernel) hc

theorem toLower_ascii {c : Char} (hc : c.toNat < 128) :
    c.toLower.toNat < 128 ∧ c.toLower.toLower = c.toLower :=
  of_ascii (p := fun c => c.toLower.toNat < 128 ∧ c.toLower.toLower = c.toLower)
    (by decide +kernel) hc

/-- Lowering leaves a character what it is, but for a capital. -/
theorem class_toLower {c : Char} (hc : c.toNat < 128) :
    isUpper c.toLower = false ∧ isAlphabetic c.toLower = isAlphabetic c ∧
      c.toLower.isDigit = c.isDigit ∧ isAlphanumeric c.toLower = isAlphanumeric c :=
  of_ascii (p := fun c => isUpper c.toLower = false ∧ isAlphabetic c.toLower = isAlphabetic c ∧
    c.toLower.isDigit = c.isDigit ∧ isAlphanumeric c.toLower = isAlphanumeric c)
    (by decide +kernel) hc

theorem lowerFrom_ascii {s : List Char} (h : ∀ c ∈ s, c.toNat < 128) (before : List Char) :
    lowerFrom before s = s.map Char.toLower := by
  induction s generalizing before with
  | nil => rfl
  | cons c rest ih =>
      have hc : c.toNat < 128 := h c List.mem_cons_self
      have hsigma : ¬ (c == 'Σ') = true := by
        rw [beq_iff_eq]
        intro heq
        rw [heq] at hc
        exact absurd hc (by decide)
      rw [lowerFrom]
      simp only [if_neg hsigma]
      rw [lowerChar_ascii hc, ih fun d hd => h d (List.mem_cons_of_mem _ hd), List.map_cons,
        List.singleton_append]

theorem lower_ascii {s : List Char} (h : ∀ c ∈ s, c.toNat < 128) :
    lower s = s.map Char.toLower := lowerFrom_ascii h []

theorem lower_lower {s : List Char} (h : ∀ c ∈ s, c.toNat < 128) :
    lower (lower s) = lower s := by
  have hsmall : ∀ c ∈ s.map Char.toLower, c.toNat < 128 := by
    intro c hc
    obtain ⟨d, hd, rfl⟩ := List.mem_map.1 hc
    exact (toLower_ascii (h d hd)).1
  rw [lower_ascii h, lower_ascii hsmall, List.map_map]
  exact List.map_congr_left fun c hc => (toLower_ascii (h c hc)).2

theorem startsWord_toLower {prev c : Char} {next : Option Char} (hprev : prev.toNat < 128)
    (hc : c.toNat < 128) (h : startsWord prev c next = false) (after : Option Char) :
    startsWord prev.toLower c.toLower after = false := by
  obtain ⟨_, hletter, hdigit, _⟩ := class_toLower hprev
  obtain ⟨hcapital, hletter', hdigit', _⟩ := class_toLower hc
  simp only [startsWord, Bool.or_eq_false_iff] at h
  simp [startsWord, hcapital, hletter, hdigit, hletter', hdigit', h.1.1.2, h.1.2]

theorem Unbroken.toLower {next : Option Char} {word : List Char}
    (hword : ∀ c ∈ word, c.toNat < 128) (h : Unbroken next word) (after : Option Char) :
    Unbroken after (word.map Char.toLower) := by
  induction word generalizing next after with
  | nil => trivial
  | cons c rest ih =>
      cases rest with
      | nil => trivial
      | cons prev more =>
          have hprev : prev.toNat < 128 := hword prev (by simp)
          refine ⟨startsWord_toLower hprev (hword c List.mem_cons_self) h.1 after, ?_⟩
          exact ih (fun d hd => hword d (List.mem_cons_of_mem _ hd)) h.2 _

theorem IsWord.toLower {w : List Char} (hw : ∀ c ∈ w, c.toNat < 128) (h : IsWord w) :
    IsWord (w.map Char.toLower) := by
  refine ⟨?_, ?_, ?_⟩
  · rw [Ne, List.map_eq_nil_iff]
    exact h.ne_nil
  · intro c hc
    obtain ⟨d, hd, rfl⟩ := List.mem_map.1 hc
    rw [(class_toLower (hw d hd)).2.2.2]
    exact h.alphanumeric d hd
  · rw [← List.map_reverse]
    exact h.unbroken.toLower (fun c hc => hw c (List.mem_reverse.1 hc)) none

section Target

variable {name : List Char} (h : ∀ c ∈ name, c.toNat < 128)
include h

theorem ascii_hyphenated : ∀ c ∈ hyphenated name, c.toNat < 128 := by
  intro c hc
  rcases mem_of_mem_hyphenated hc with hname | rfl
  · exact h c hname
  · decide

theorem map_lower_words :
    (wordsFrom [] name).map lower = (wordsFrom [] name).map (List.map Char.toLower) :=
  List.map_congr_left fun _ hw => lower_ascii fun c hc => h c (mem_of_mem_word hw hc)

theorem lower_hyphenated (hwords : wordsFrom [] name ≠ []) :
    lower (hyphenated name) = List.intercalate ['-'] ((wordsFrom [] name).map lower) := by
  have hhyphen : ['-'].map Char.toLower = ['-'] := by decide
  rw [lower_ascii (ascii_hyphenated h), hyphenated_of_words hwords, map_intercalate, hhyphen,
    map_lower_words h]

theorem wordsFrom_lower_of_none (hnone : wordsFrom [] name = []) :
    wordsFrom [] (lower name) = [] := by
  rw [wordsFrom_eq_nil_iff] at hnone ⊢
  rw [lower_ascii h]
  intro c hc
  obtain ⟨d, hd, rfl⟩ := List.mem_map.1 hc
  rw [(class_toLower (h d hd)).2.2.2]
  exact hnone d hd

/-- The words of a link target are those of the name in small letters. -/
theorem wordsFrom_lower :
    wordsFrom [] (lower (hyphenated name)) = (wordsFrom [] name).map lower := by
  by_cases hnone : wordsFrom [] name = []
  · rw [hyphenated_of_none hnone, hnone, wordsFrom_lower_of_none h hnone, List.map_nil]
  · rw [lower_hyphenated h hnone]
    apply wordsFrom_intercalate
    intro v hv
    rw [map_lower_words h] at hv
    obtain ⟨w, hw, rfl⟩ := List.mem_map.1 hv
    exact (isWord_of_mem hw).toLower fun c hc => h c (mem_of_mem_word hw hc)

theorem hyphenated_lower : hyphenated (lower (hyphenated name)) = lower (hyphenated name) := by
  by_cases hnone : wordsFrom [] name = []
  · rw [hyphenated_of_none]
    rw [wordsFrom_lower h, hnone, List.map_nil]
  · have hagain : wordsFrom [] (lower (hyphenated name)) ≠ [] := by
      rw [wordsFrom_lower h, Ne, List.map_eq_nil_iff]
      exact hnone
    rw [hyphenated_of_words hagain, wordsFrom_lower h, lower_hyphenated h hnone]

end Target

/-! ## Names of names -/

theorem words_ofList (s : List Char) :
    words (String.ofList s) = (wordsFrom [] s).map String.ofList := by
  rw [words, String.toList_ofList]

/-- A page name has the words of the name and is the page name of itself.  In ASCII a link target
has these words in small letters, and it is its own page name and its own link target. -/
theorem naming_idempotent (name : String) :
    (words (pageName name) = words name ∧ pageName (pageName name) = pageName name) ∧
    ((∀ c ∈ name.toList, c.toNat < 128) →
      words (anchor name) = (words name).map (fun w => String.ofList (lower w.toList)) ∧
      pageName (anchor name) = anchor name ∧ anchor (anchor name) = anchor name) := by
  refine ⟨⟨?_, ?_⟩, fun h => ⟨?_, ?_, ?_⟩⟩
  · rw [pageName, words_ofList, wordsFrom_hyphenated]
    rfl
  · rw [pageName, pageName, String.toList_ofList, hyphenated_hyphenated]
  · rw [anchor, words_ofList, wordsFrom_lower h, words, List.map_map, List.map_map]
    refine List.map_congr_left fun w _ => ?_
    simp
  · rw [pageName, anchor, String.toList_ofList, hyphenated_lower h]
  · rw [anchor, anchor, String.toList_ofList, hyphenated_lower h, lower_lower (ascii_hyphenated h)]

/-- Three words and a number, in capitals and with a blank. -/
def capitalsSample : String := "HTTPServer v2"

theorem naming_idempotent_capitalsSample :
    (∀ c ∈ capitalsSample.toList, c.toNat < 128) ∧
    pageName capitalsSample = "HTTP-Server-v-2" ∧ anchor capitalsSample = "http-server-v-2" ∧
    words (anchor capitalsSample) = ["http", "server", "v", "2"] ∧
    pageName (anchor capitalsSample) = anchor capitalsSample ∧
    anchor (anchor capitalsSample) = anchor capitalsSample := by
  have hascii : ∀ c ∈ capitalsSample.toList, c.toNat < 128 := by decide +kernel
  obtain ⟨hwords, hpage, hanchor⟩ := (naming_idempotent capitalsSample).2 hascii
  refine ⟨hascii, by decide +kernel, by decide +kernel, ?_, hpage, hanchor⟩
  rw [hwords]
  decide +kernel

/-- A small form of two characters, of which the second separates. -/
example : anchor (anchor "İ") ≠ anchor "İ" := by decide +kernel

end Naming
end DocPages
