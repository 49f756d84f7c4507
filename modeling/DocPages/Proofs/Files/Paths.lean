/-
What paths mean.

A path is text, and joining appends text.  The steps of a path are its components that lead
somewhere, and over them joining is appending, except that a piece which starts at the root
replaces all that came before it.  Whether a path stays below a folder can be read off its
steps.
-/
import DocPages.Files.Path
import DocPages.Proofs.Text.Cutting
import DocPages.Proofs.Text.Pieces

namespace DocPages
namespace Path

open Text

/-! ## Steps -/

/-- The components of a path that lead somewhere.  A dot at the front stays where it is. -/
def steps (path : String) : List Component := (components path).filter (· ≠ .current)

/-- The components that the pieces of a path stand for. -/
def meant (pieces : List (List Char)) : List Component := pieces.filterMap component?

/-- The step that a path starts with if it starts at the root. -/
def origin (path : String) : List Component := if isAbsolute path then [.root] else []

theorem meant_append (a b : List (List Char)) : meant (a ++ b) = meant a ++ meant b :=
  List.filterMap_append

/-- Behind the front a path goes down by a name or up. -/
theorem component?_eq_some {piece : List Char} {c : Component} (h : component? piece = some c) :
    piece = ['.', '.'] ∧ c = .parent ∨
      piece ≠ [] ∧ piece ≠ ['.'] ∧ piece ≠ ['.', '.'] ∧ c = .normal (String.ofList piece) := by
  unfold component? at h
  split at h
  · cases h
  · rename_i hne
    rw [not_or] at hne
    split at h
    · rename_i hup
      cases h
      exact .inl ⟨hup, rfl⟩
    · rename_i hup
      cases h
      exact .inr ⟨hne.1, hne.2, hup, rfl⟩

theorem down_or_up_of_mem_meant {pieces : List (List Char)} {c : Component} (h : c ∈ meant pieces) :
    c = .parent ∨ ∃ name, c = .normal name := by
  obtain ⟨piece, _, hc⟩ := List.mem_filterMap.1 h
  rcases component?_eq_some hc with ⟨_, rfl⟩ | ⟨_, _, _, rfl⟩
  · exact .inl rfl
  · exact .inr ⟨_, rfl⟩

theorem filter_meant (pieces : List (List Char)) :
    (meant pieces).filter (· ≠ .current) = meant pieces := by
  refine List.filter_eq_self.2 fun c hc => ?_
  rcases down_or_up_of_mem_meant hc with rfl | ⟨name, rfl⟩ <;> simp

theorem pieces_of_isAbsolute {path : String} (h : isAbsolute path = true) :
    ∃ rest, pieces path = [] :: rest := by
  rw [isAbsolute, beq_iff_eq] at h
  obtain ⟨rest, hpath⟩ := List.head?_eq_some_iff.1 h
  exact ⟨splitAt (· == '/') rest, by rw [pieces, hpath, splitAt]; rfl⟩

/-- A dot at the front is the only component that is no step. -/
theorem components_cases (path : String) :
    components path = origin path ++ meant (pieces path) ∨
      isAbsolute path = false ∧ components path = .current :: meant (pieces path) := by
  unfold components origin
  cases habs : isAbsolute path with
  | true =>
      obtain ⟨rest, hrest⟩ := pieces_of_isAbsolute habs
      rw [hrest]
      exact .inl rfl
  | false =>
      cases pieces path with
      | nil => exact .inl rfl
      | cons first rest =>
          simp only [Bool.false_eq_true, if_false, List.nil_append, true_and]
          by_cases hempty : first = []
          · subst hempty
            exact .inl rfl
          · rw [if_neg hempty]
            by_cases hdot : first = ['.']
            · subst hdot
              exact .inr rfl
            · rw [if_neg hdot, meant, List.filterMap_cons]
              cases component? first <;> exact .inl rfl

theorem steps_eq (path : String) : steps path = origin path ++ meant (pieces path) := by
  rw [steps]
  rcases components_cases path with h | ⟨habs, h⟩
  · rw [h, List.filter_append, filter_meant, origin]
    split <;> rfl
  · rw [h, List.filter_cons_of_neg (by simp), filter_meant, origin, habs]
    rfl

theorem root_mem_steps {path : String} : .root ∈ steps path ↔ isAbsolute path = true := by
  rw [steps_eq, origin, List.mem_append]
  cases habs : isAbsolute path with
  | true => simp
  | false =>
      simp only [Bool.false_eq_true, if_false, List.not_mem_nil, false_or, iff_false]
      intro hmem
      rcases down_or_up_of_mem_meant hmem with h | ⟨_, h⟩ <;> cases h

/-! ## Joining -/

theorem isAbsolute_append {path : String} (h : path ≠ "") (more : String) :
    isAbsolute (path ++ more) = isAbsolute path := by
  have hne : path.toList ≠ [] := by simpa using h
  obtain ⟨c, rest, hpath⟩ := List.exists_cons_of_ne_nil hne
  rw [isAbsolute, isAbsolute, String.toList_append, hpath]
  rfl

theorem isAbsolute_join (path piece : String) :
    isAbsolute (join path piece) = (isAbsolute piece || isAbsolute path) := by
  unfold join
  split
  · rename_i h
    rw [h, Bool.true_or]
  · rename_i h
    rw [Bool.not_eq_true] at h
    rw [h, Bool.false_or]
    by_cases hempty : path = ""
    · subst hempty
      rw [if_pos (by rfl), String.empty_append]
      exact h
    · split
      · exact isAbsolute_append hempty _
      · rw [String.append_assoc]
        exact isAbsolute_append hempty _

/-- The pieces of a joined path end with those of the piece, and what is before them means
what the path meant. -/
theorem pieces_join {piece : String} (h : isAbsolute piece = false) (path : String) :
    ∃ front, pieces (join path piece) = front ++ pieces piece ∧
      meant front = meant (pieces path) := by
  unfold join
  rw [h, if_neg Bool.false_ne_true]
  by_cases hempty : path = ""
  · subst hempty
    exact ⟨[], by simp, rfl⟩
  · split
    · rename_i hslash
      have hlast : path.toList.getLast? = some '/' := by simpa [hempty] using hslash
      obtain ⟨front, hfront⟩ := List.getLast?_eq_some_iff.1 hlast
      refine ⟨splitAt (· == '/') front, ?_, ?_⟩
      · rw [pieces, String.toList_append, hfront, List.append_assoc, List.singleton_append,
          splitAt_append (by rfl)]
        rfl
      · rw [pieces, hfront, splitAt_append (by rfl), meant_append]
        exact (List.append_nil _).symm
    · refine ⟨pieces path, ?_, rfl⟩
      rw [pieces, String.append_assoc, String.toList_append, String.toList_append]
      exact splitAt_append (c := '/') (by rfl) path.toList piece.toList

theorem steps_join {piece : String} (h : isAbsolute piece = false) (path : String) :
    steps (join path piece) = steps path ++ meant (pieces piece) := by
  obtain ⟨front, hpieces, hfront⟩ := pieces_join h path
  rw [steps_eq, steps_eq, hpieces, meant_append, hfront, origin, origin, isAbsolute_join, h,
    Bool.false_or, List.append_assoc]

/-! ## A name as a piece -/

/-- A name that is a piece of its own and goes down. -/
def IsName (name : String) : Prop :=
  component? name.toList = some (.normal name) ∧ '/' ∉ name.toList

theorem IsName.pieces_eq {name : String} (h : IsName name) : pieces name = [name.toList] :=
  splitAt_of_notMem h.2

theorem IsName.relative {name : String} (h : IsName name) : isAbsolute name = false := by
  rw [isAbsolute, beq_eq_false_iff_ne]
  intro hhead
  exact h.2 (List.mem_of_mem_head? hhead)

theorem IsName.meant_eq {name : String} (h : IsName name) :
    meant (pieces name) = [.normal name] := by
  rw [h.pieces_eq, meant, List.filterMap_cons_some h.1]
  rfl

/-- A path of one normal component is a name. -/
theorem isName_of_components {name : String} (h : components name = [.normal name]) :
    IsName name := by
  have hsteps : meant (pieces name) = [.normal name] := by
    have hall : steps name = [.normal name] := by
      rw [steps, h]
      rfl
    have hrelative : isAbsolute name ≠ true := by
      intro habs
      have hroot := root_mem_steps.2 habs
      rw [hall, List.mem_singleton] at hroot
      cases hroot
    rwa [steps_eq, origin, if_neg hrelative, List.nil_append] at hall
  obtain ⟨piece, hpiece, hname⟩ :=
    List.mem_filterMap.1 (show Component.normal name ∈ meant (pieces name) by simp [hsteps])
  have heq : piece = name.toList := by
    rcases component?_eq_some hname with ⟨_, hup⟩ | ⟨_, _, _, hdown⟩
    · cases hup
    · cases hdown
      exact String.toList_ofList.symm
  subst heq
  exact ⟨hname, notMem_of_mem_splitAt hpiece⟩

/-! ## Below a folder -/

/-- A path is that of a folder, followed by names only. -/
def Below (root path : String) : Prop :=
  ∃ rest, steps path = steps root ++ rest ∧ ∀ c ∈ rest, ∃ name, c = .normal name

/-- The parts of a dotted path. -/
def parts (directory : String) : List String :=
  ((splitAt (· == '.') directory.toList).filter (!·.isEmpty)).map String.ofList

theorem namespaceFolder_eq (root package directory : String) :
    namespaceFolder root package directory = (parts directory).foldl join (join root package) := by
  rw [namespaceFolder, parts, List.foldl_map]

theorem isAbsolute_foldl_join (path : String) (parts : List String) :
    isAbsolute (parts.foldl join path) = (parts.any isAbsolute || isAbsolute path) := by
  induction parts generalizing path with
  | nil => rfl
  | cons part rest ih =>
      rw [List.foldl_cons, ih, isAbsolute_join, List.any_cons]
      cases isAbsolute part <;> cases isAbsolute path <;> cases rest.any isAbsolute <;> rfl

theorem steps_foldl_join {parts : List String} (h : ∀ part ∈ parts, isAbsolute part = false)
    (path : String) :
    steps (parts.foldl join path) =
      steps path ++ parts.flatMap fun part => meant (pieces part) := by
  induction parts generalizing path with
  | nil => exact (List.append_nil _).symm
  | cons part rest ih =>
      rw [List.foldl_cons, ih fun q hq => h q (List.mem_cons_of_mem _ hq),
        steps_join (h part List.mem_cons_self), List.flatMap_cons, List.append_assoc]

theorem mem_parts {directory part : String} (h : part ∈ parts directory) :
    part ≠ "" ∧ '.' ∉ part.toList := by
  obtain ⟨piece, hpiece, rfl⟩ := List.mem_map.1 h
  obtain ⟨hmem, hne⟩ := List.mem_filter.1 hpiece
  constructor
  · simpa using hne
  · rw [String.toList_ofList]
    exact notMem_of_mem_splitAt hmem

theorem dot_notMem_of_mem_pieces {path : String} (h : '.' ∉ path.toList) {piece : List Char}
    (hp : piece ∈ pieces path) : '.' ∉ piece :=
  fun hdot => h (mem_of_mem_splitAt hp '.' hdot).1

/-- Without a dot there is no way up. -/
theorem normal_of_no_dot {path : String} (h : '.' ∉ path.toList) :
    ∀ c ∈ meant (pieces path), ∃ name, c = .normal name := by
  intro c hc
  obtain ⟨piece, hpiece, hcomponent⟩ := List.mem_filterMap.1 hc
  rcases component?_eq_some hcomponent with ⟨rfl, _⟩ | ⟨_, _, _, rfl⟩
  · exact absurd (by decide) (dot_notMem_of_mem_pieces h hpiece)
  · exact ⟨_, rfl⟩

end Path
end DocPages
