/-
Where a header has its first assignment, and what may stand behind it.

A type has none, so that it is looked for behind the name.  Behind an assignment bodies are a
part of the header: `Gathered.continued`.
-/
import DocPages.Proofs.Declaration.Squeezing

namespace DocPages
namespace Declaration

open Text

/-! ## Looking for an assignment -/

section Steps

variable {prev c : Char} {depth : Nat} {r : List Char}

theorem findAssignmentFrom_plain (h : c ∉ "\"=()[]\x7b\x7d<>".toList) :
    findAssignmentFrom prev depth false (c :: r) =
      (findAssignmentFrom c depth false r).map fun found => (c :: found.1, found.2) := by
  simp only [String.reduceToList, List.mem_cons, List.not_mem_nil, or_false, not_or] at h
  have hopen : isOpening c = false := by simp [isOpening, h]
  have hclose : isClosing c = false := by simp [isClosing, h]
  simp [findAssignmentFrom, h, hopen, hclose]

theorem findAssignmentFrom_open (h : isOpening c = true) :
    findAssignmentFrom prev depth false (c :: r) =
      (findAssignmentFrom c (depth + 1) false r).map fun found => (c :: found.1, found.2) := by
  have hquote : c ≠ '"' := by
    rintro rfl
    cases h
  simp [findAssignmentFrom, h, hquote]

theorem findAssignmentFrom_close (h : isClosing c = true) (hprev : prev ≠ '=') :
    findAssignmentFrom prev (depth + 1) false (c :: r) =
      (findAssignmentFrom c depth false r).map fun found => (c :: found.1, found.2) := by
  have hquote : c ≠ '"' := by
    rintro rfl
    cases h
  have hopen : isOpening c = false := by
    simp only [isClosing, String.reduceToList, List.contains_iff_mem, List.mem_cons,
      List.not_mem_nil, or_false] at h
    rcases h with rfl | rfl | rfl | rfl <;> decide
  simp [findAssignmentFrom, h, hquote, hopen, hprev]

end Steps

/-- The character in front of what follows a text. -/
def lastOr (prev : Char) (s : List Char) : Char := s.getLast?.getD prev

theorem lastOr_cons (prev c : Char) (s : List Char) : lastOr prev (c :: s) = lastOr c s := by
  rw [lastOr, lastOr, List.getLast?_cons]
  rfl

theorem lastOr_append (prev : Char) (s t : List Char) :
    lastOr prev (s ++ t) = lastOr (lastOr prev s) t := by
  rw [lastOr, lastOr, lastOr, List.getLast?_append]
  cases t.getLast? <;> rfl

/-- There is no assignment in a text: the first one is the first behind it. -/
def Unassigned (s : List Char) : Prop :=
  ∀ prev depth r, prev ≠ '=' → lastOr prev s ≠ '=' ∧
    findAssignmentFrom prev depth false (s ++ r) =
      (findAssignmentFrom (lastOr prev s) depth false r).map fun found => (s ++ found.1, found.2)

namespace Unassigned

variable {s t : List Char}

theorem nil : Unassigned [] := fun _ _ _ hprev => ⟨hprev, (Option.map_id' (x := _)).symm⟩

theorem append (hs : Unassigned s) (ht : Unassigned t) : Unassigned (s ++ t) := by
  intro prev depth r hprev
  obtain ⟨hlast, hs⟩ := hs prev depth (t ++ r) hprev
  obtain ⟨hlast', ht⟩ := ht (lastOr prev s) depth r hlast
  rw [lastOr_append, List.append_assoc, hs, ht, Option.map_map]
  refine ⟨hlast', ?_⟩
  simp only [Function.comp_def, List.append_assoc]

theorem single {c : Char} (h : c ∉ "\"=()[]\x7b\x7d<>".toList) : Unassigned [c] := by
  intro prev depth r _
  have hne : c ≠ '=' := by
    rintro rfl
    exact h (by decide)
  exact ⟨hne, findAssignmentFrom_plain h⟩

theorem run (h : ∀ c ∈ s, c ∉ "\"=()[]\x7b\x7d<>".toList) : Unassigned s := by
  induction s with
  | nil => exact nil
  | cons c s ih =>
      exact (single (h c List.mem_cons_self)).append
        (ih fun d hd => h d (List.mem_cons_of_mem c hd))

theorem brackets {opening closing : Char} (hb : (opening, closing) ∈ bracketPairs)
    (hs : Unassigned s) : Unassigned (opening :: (s ++ [closing])) := by
  have hpair := isOpening_of_pair hb
  have hne : ∀ {c : Char}, isOpening c = true ∨ isClosing c = true → c ≠ '=' := by
    rintro c hc rfl
    revert hc
    decide
  intro prev depth r _
  obtain ⟨hlast, hs⟩ := hs opening (depth + 1) (closing :: r) (hne (.inl hpair.1))
  have hend : lastOr prev (opening :: (s ++ [closing])) = closing := by
    rw [lastOr_cons, lastOr_append]
    rfl
  rw [hend]
  refine ⟨hne (.inr hpair.2), ?_⟩
  rw [List.cons_append, List.append_assoc, List.singleton_append,
    findAssignmentFrom_open hpair.1, hs, findAssignmentFrom_close hpair.2 hlast, Option.map_map,
    Option.map_map]
  simp only [Function.comp_def, List.append_assoc, List.cons_append, List.nil_append]

end Unassigned

theorem Wording.unassigned {banned : List (List Char)} {commas : Bool} {s : List Char}
    (h : Wording banned commas s) : Unassigned s := by
  have hword : ∀ {c : Char}, isWordChar c = true ∨ isBlank c = true ∨ c ∈ ".?,".toList →
      c ∉ "\"=()[]\x7b\x7d<>".toList := by
    intro c hc hmem
    have htable : ∀ d ∈ "\"=()[]\x7b\x7d<>".toList,
        isWordChar d = false ∧ isBlank d = false ∧ d ∉ ".?,".toList := by decide +kernel
    have hd := htable c hmem
    simp only [hd.1, hd.2.1, hd.2.2, Bool.false_eq_true, or_self] at hc
  induction h with
  | nil => exact .nil
  | word hw _ _ _ ih => exact (Unassigned.run fun c hc => hword (.inl (hw.inside c hc))).append ih
  | blank hc _ ih => exact (Unassigned.single (hword (.inr (.inl hc)))).append ih
  | mark hc _ _ ih => exact (Unassigned.single (hword (.inr (.inr hc)))).append ih
  | @brackets _ t s opening closing hb _ _ iht ih =>
      have hkinds : ∀ b ∈ [('(', ')'), ('<', '>'), ('[', ']')], b ∈ bracketPairs := by decide
      have hpair : (opening, closing) ∈ bracketPairs := hkinds _ hb
      have := (Unassigned.brackets hpair iht).append ih
      rwa [List.cons_append, List.append_assoc, List.singleton_append] at this

/-! ## Behind an assignment -/

/-- A header has an assignment, and more than its sign has been read. -/
def Assigned (header : List Char) : Prop :=
  ∃ before arrow, findAssignment header = some (before, arrow) ∧ before.length + 1 < header.length

/-- A step looks only at what kind of character comes next. -/
theorem findAssignmentFrom_step (prev c : Char) (depth : Nat) (quoted : Bool) {s t : List Char}
    (hequals : s.head? = some '=' ↔ t.head? = some '=')
    (harrow : s.head? = some '>' ↔ t.head? = some '>') :
    (∃ arrow, findAssignmentFrom prev depth quoted (c :: s) = some ([], arrow) ∧
      findAssignmentFrom prev depth quoted (c :: t) = some ([], arrow)) ∨
    ∃ depth' quoted',
      findAssignmentFrom prev depth quoted (c :: s) =
        (findAssignmentFrom c depth' quoted' s).map (fun found => (c :: found.1, found.2)) ∧
      findAssignmentFrom prev depth quoted (c :: t) =
        (findAssignmentFrom c depth' quoted' t).map fun found => (c :: found.1, found.2) := by
  have hnext : ∀ {d : Char}, d ≠ ' ' → ∀ u : List Char, u.head?.getD ' ' = d ↔ u.head? = some d := by
    rintro d hd (_ | ⟨e, u⟩)
    · exact iff_of_false (Ne.symm hd) nofun
    · exact Option.some_inj.symm
  have hequals' : s.head?.getD ' ' = '=' ↔ t.head?.getD ' ' = '=' := by
    rw [hnext (by decide), hnext (by decide), hequals]
  have harrow' : (s.head?.getD ' ' == '>') = (t.head?.getD ' ' == '>') := by
    rw [Bool.eq_iff_iff, beq_iff_eq, beq_iff_eq, hnext (by decide), hnext (by decide), harrow]
  simp only [findAssignmentFrom, ne_eq, hequals', harrow']
  repeat' split
  all_goals first
    | exact .inl ⟨_, rfl, rfl⟩
    | exact .inr ⟨_, _, rfl, rfl⟩

theorem findAssignmentFrom_append {prev : Char} {depth : Nat} {quoted arrow : Bool}
    {s before : List Char} (h : findAssignmentFrom prev depth quoted s = some (before, arrow))
    (hlt : before.length + 1 < s.length) (more : List Char) :
    findAssignmentFrom prev depth quoted (s ++ more) = some (before, arrow) := by
  induction s generalizing prev depth quoted before with
  | nil => cases h
  | cons c s ih =>
      have hne : s ≠ [] := by
        rintro rfl
        simp at hlt
      have hhead : s.head? = (s ++ more).head? := (List.head?_append_of_ne_nil s hne).symm
      rcases findAssignmentFrom_step prev c depth quoted (s := s) (t := s ++ more) (by rw [hhead])
        (by rw [hhead]) with ⟨found, hs, ht⟩ | ⟨depth', quoted', hs, ht⟩
      · rw [List.cons_append, ht, ← hs, h]
      · rw [hs, Option.map_eq_some_iff] at h
        obtain ⟨⟨front, sign⟩, hfront, he⟩ := h
        cases he
        rw [List.cons_append, ht, ih hfront (by simpa using hlt)]
        rfl

theorem findAssignmentFrom_pad {prev : Char} {depth : Nat} {quoted : Bool} {s gap : List Char}
    (hgap : allBlank gap = true) :
    findAssignmentFrom prev depth quoted (s ++ gap) = findAssignmentFrom prev depth quoted s := by
  induction s generalizing prev depth quoted with
  | nil => exact findAssignmentFrom_eq_none (notMem_of_allBlank (by decide) hgap) _ _ _
  | cons c s ih =>
      have hhead : ∀ d, isBlank d = false → ((s ++ gap).head? = some d ↔ s.head? = some d) := by
        intro d hd
        cases s with
        | cons e s => rfl
        | nil =>
            refine iff_of_false (fun he => ?_) nofun
            exact notMem_of_allBlank hd hgap (List.mem_of_mem_head? he)
      rcases findAssignmentFrom_step prev c depth quoted (hhead '=' (by decide))
        (hhead '>' (by decide)) with ⟨found, hs, ht⟩ | ⟨depth', quoted', hs, ht⟩
      · rw [List.cons_append, hs, ht]
      · rw [List.cons_append, hs, ht, ih]

theorem Assigned.trim_append {header : List Char} (h : Assigned header)
    (hstart : Stops isBlank header) (more : List Char) :
    (findAssignment (trim (header ++ more))).isSome = true := by
  obtain ⟨before, arrow, hfound, hlt⟩ := h
  have hne : header ≠ [] := by
    rintro rfl
    cases hfound
  have hstart' : trimStart (header ++ more) = header ++ more :=
    trimStart_of_stops (hstart.append_right hne more)
  obtain ⟨gap, hgap, hsplit⟩ := exists_trimEnd (header ++ more)
  rw [trim, hstart', findAssignment, ← findAssignmentFrom_pad hgap, ← hsplit,
    findAssignmentFrom_append hfound hlt more]
  rfl

/-- What follows the beginning of a header, and what it adds to the header.  Bodies are a part
of what stands behind an assignment. -/
inductive Continued (header : List Char) : List Char → List Char → Prop
  | plain {s t : List Char} :
      Seam s → Gathers false (endsBlank false header) s t → Continued header s t
  | assigned {s t value v : List Char} :
      Seam s → Gathers false (endsBlank false header) s t → Assigned (header ++ t) →
      Seam value → Gathers true (endsBlank false (header ++ t)) value v →
      Continued header (s ++ value) (t ++ v)

theorem Gathered.ne_nil {text header : List Char} (h : Gathered text header) : header ≠ [] := by
  rintro rfl
  cases h.1

theorem Gathered.continued {text header s t : List Char} (h : Gathered text header)
    (hstart : Stops isBlank header) (hc : Continued header s t) :
    Gathered (text ++ s) (header ++ t) := by
  cases hc with
  | plain hseam hs => exact h.append hs hseam nofun
  | assigned hseam hs hassigned hseam' hv =>
      rw [← List.append_assoc, ← List.append_assoc]
      refine (h.append hs hseam nofun).append hv hseam' fun _ more _ => ?_
      exact hassigned.trim_append (hstart.append_right h.ne_nil _) more

end Declaration
end DocPages
