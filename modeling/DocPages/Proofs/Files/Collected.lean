/-
The files that are collected from a folder.

The path of a collected file is the path of the folder as it was given, but for a dot in
front, and the names from there on.  It leads to the file that these names lead to.
-/
import DocPages.Files.Sources
import DocPages.Proofs.Files.Trees

namespace DocPages

namespace Path

open Text

theorem pieces_ofList {piece : List Char} (h : '/' ∉ piece) :
    pieces (String.ofList piece) = [piece] := by
  rw [pieces, String.toList_ofList, splitAt_of_notMem h]

theorem isAbsolute_ofList {piece : List Char} (h : '/' ∉ piece) :
    isAbsolute (String.ofList piece) = false := by
  rw [isAbsolute, String.toList_ofList, beq_eq_false_iff_ne]
  exact fun hhead => h (List.mem_of_mem_head? hhead)

theorem mem_of_mem_join {path piece : String} {c : Char} (h : c ∈ (join path piece).toList) :
    c ∈ path.toList ∨ c = '/' ∨ c ∈ piece.toList := by
  unfold join at h
  split at h
  · exact .inr (.inr h)
  · split at h
    · rw [String.toList_append, List.mem_append] at h
      exact h.imp_right .inr
    · simpa [or_assoc] using h

theorem pieces_intercalate {names : List String} (hne : names ≠ [])
    (h : ∀ name ∈ names, IsName name) :
    pieces ("/".intercalate names) = names.map String.toList := by
  have hslash : ∀ piece ∈ names.map String.toList, '/' ∉ piece := by
    intro piece hpiece
    obtain ⟨name, hname, rfl⟩ := List.mem_map.1 hpiece
    exact (h name hname).2
  rw [pieces, String.toList_intercalate]
  exact splitAt_intercalate (List.map_eq_nil_iff.not.2 hne) hslash

theorem isAbsolute_intercalate {names : List String} (hne : names ≠ [])
    (h : ∀ name ∈ names, IsName name) : isAbsolute ("/".intercalate names) = false := by
  have hpieces := pieces_intercalate hne h
  rw [← Bool.not_eq_true]
  intro habs
  obtain ⟨rest, hrest⟩ := pieces_of_isAbsolute habs
  rw [hpieces] at hrest
  obtain ⟨name, more, rfl⟩ := List.exists_cons_of_ne_nil hne
  have hname := (h name List.mem_cons_self).1
  rw [(List.cons.inj hrest).1] at hname
  cases hname

end Path

namespace Sources

open DocPages.Path Text

/-! ## The path of the folder -/

/-- The path leads where the pieces lead, from the root or from the working folder. -/
structure LeadsAs (absolute : Bool) (ps : List (List Char)) (path : String) : Prop where
  filled : path ≠ ""
  named : path ≠ "."
  isAbsolute_eq : isAbsolute path = absolute
  meant_eq : meant (pieces path) = meant ps
  plain : ∀ c ∈ path.toList, c = '/' ∨ ∃ piece ∈ ps, c ∈ piece

/-- Goes on from a path by a piece. -/
def extend? (path piece : String) : Option String :=
  let next := if path == "." then piece else join path piece
  if next.isEmpty then none else some next

theorem base?_eq (folder : String) :
    base? folder =
      if isAbsolute folder then ((pieces folder).map String.ofList).tail.foldlM extend? "/"
      else ((pieces folder).map String.ofList).foldlM extend? "." :=
  rfl

theorem LeadsAs.extend {absolute : Bool} {ps : List (List Char)} {path next : String}
    (h : LeadsAs absolute ps path) {piece : List Char} (hpiece : '/' ∉ piece)
    (hnext : extend? path (String.ofList piece) = some next) :
    LeadsAs absolute (ps ++ [piece]) next := by
  have hrelative := isAbsolute_ofList hpiece
  have hpieces := pieces_ofList hpiece
  obtain ⟨hne, rfl⟩ : join path (String.ofList piece) ≠ "" ∧
      join path (String.ofList piece) = next := by
    simpa [extend?, h.named] using hnext
  obtain ⟨front, hjoin, hfront⟩ := pieces_join hrelative path
  refine ⟨hne, ?_, ?_, ?_, ?_⟩
  · intro hdot
    -- A joined path holds a slash, unless nothing is in front of the piece.
    have hslash : '/' ∈ (join path (String.ofList piece)).toList := by
      unfold join
      rw [hrelative, if_neg Bool.false_ne_true]
      split
      · rename_i hlast
        have hlast : path.toList.getLast? = some '/' := by simpa [h.filled] using hlast
        simp [List.mem_of_getLast? hlast]
      · simp
    rw [hdot] at hslash
    exact absurd hslash (by decide)
  · rw [isAbsolute_join, hrelative, h.isAbsolute_eq, Bool.false_or]
  · rw [hjoin, hpieces, meant_append, meant_append, hfront, h.meant_eq]
  · intro c hc
    have hparts := mem_of_mem_join hc
    rw [String.toList_ofList] at hparts
    rcases hparts with hpath | hslash | hpiece
    · exact (h.plain c hpath).imp_right fun ⟨p, hp, hcp⟩ => ⟨p, List.mem_append_left _ hp, hcp⟩
    · exact .inl hslash
    · exact .inr ⟨piece, by simp, hpiece⟩

theorem LeadsAs.foldlM {absolute : Bool} {ps rest : List (List Char)} {path base : String}
    (h : LeadsAs absolute ps path) (hrest : ∀ piece ∈ rest, '/' ∉ piece)
    (hbase : (rest.map String.ofList).foldlM extend? path = some base) :
    LeadsAs absolute (ps ++ rest) base := by
  induction rest generalizing ps path with
  | nil =>
      cases hbase
      rw [List.append_nil]
      exact h
  | cons piece rest ih =>
      obtain ⟨hpiece, hrest⟩ := List.forall_mem_cons.1 hrest
      rw [List.map_cons, List.foldlM_cons] at hbase
      obtain ⟨next, hnext, hbase⟩ := Option.bind_eq_some_iff.1 hbase
      rw [List.append_cons]
      exact ih (h.extend hpiece hnext) hrest hbase

theorem leadsAs_of_dot {ps : List (List Char)} {base : String} (hps : ∀ piece ∈ ps, '/' ∉ piece)
    (h : (ps.map String.ofList).foldlM extend? "." = some base) :
    base = "." ∧ meant ps = [] ∨ LeadsAs false ps base := by
  induction ps with
  | nil =>
      cases h
      exact .inl ⟨rfl, rfl⟩
  | cons piece rest ih =>
      obtain ⟨hpiece, hrest⟩ := List.forall_mem_cons.1 hps
      rw [List.map_cons, List.foldlM_cons] at h
      obtain ⟨next, hnext, h⟩ := Option.bind_eq_some_iff.1 h
      obtain ⟨hne, rfl⟩ : String.ofList piece ≠ "" ∧ String.ofList piece = next := by
        simpa [extend?] using hnext
      by_cases hdot : String.ofList piece = "."
      · -- A dot in front adds nothing.
        obtain rfl : piece = ['.'] := by
          rw [← String.toList_ofList (l := piece), hdot]
          rfl
        rcases ih hrest h with ⟨hbase, hmeant⟩ | hleads
        · exact .inl ⟨hbase, hmeant⟩
        · exact .inr { hleads with
            plain := fun c hc => (hleads.plain c hc).imp_right fun ⟨p, hp, hcp⟩ =>
              ⟨p, List.mem_cons_of_mem _ hp, hcp⟩ }
      · have hfirst : LeadsAs false [piece] (String.ofList piece) :=
          ⟨hne, hdot, isAbsolute_ofList hpiece, by rw [pieces_ofList hpiece],
            fun c hc => .inr ⟨piece, by simp, by simpa using hc⟩⟩
        exact .inr (hfirst.foldlM hrest h)

theorem base?_eq_some {folder base : String} (h : base? folder = some base) :
    base = "." ∧ isAbsolute folder = false ∧ meant (pieces folder) = [] ∨
      LeadsAs (isAbsolute folder) (pieces folder) base := by
  have hpieces : ∀ piece ∈ pieces folder, '/' ∉ piece :=
    fun piece hpiece => notMem_of_mem_splitAt hpiece
  rw [base?_eq] at h
  cases habs : isAbsolute folder with
  | false =>
      rw [habs, if_neg Bool.false_ne_true] at h
      rcases leadsAs_of_dot hpieces h with ⟨hdot, hmeant⟩ | hleads
      · exact .inl ⟨hdot, rfl, hmeant⟩
      · exact .inr hleads
  | true =>
      obtain ⟨rest, hrest⟩ := pieces_of_isAbsolute habs
      rw [habs, if_pos rfl, hrest, List.map_cons, List.tail_cons] at h
      have hroot : LeadsAs true [[]] "/" := ⟨by decide, by decide, rfl, rfl, by simp⟩
      rw [hrest] at hpieces ⊢
      exact .inr (hroot.foldlM (List.forall_mem_cons.1 hpieces).2 h)

/-! ## The path of a file -/

section

variable {folder base : String} (hbase : base? folder = some base) {names : List String}
  (hne : names ≠ []) (hnames : ∀ name ∈ names, IsName name)

include hbase hne hnames

/-- The path of a file goes where the folder is, and on by the names. -/
theorem pieces_childPath :
    ∃ front, pieces (childPath base names) = front ++ names.map String.toList ∧
      meant front = meant (pieces folder) := by
  have hbelow := pieces_intercalate hne hnames
  unfold childPath
  rcases base?_eq_some hbase with ⟨rfl, -, hmeant⟩ | hleads
  · exact ⟨[], by simpa using hbelow, hmeant.symm⟩
  · obtain ⟨front, hpieces, hfront⟩ := pieces_join (isAbsolute_intercalate hne hnames) base
    refine ⟨front, ?_, hfront.trans hleads.meant_eq⟩
    rw [if_neg (by simpa using hleads.named), hpieces, hbelow]

theorem isAbsolute_childPath : isAbsolute (childPath base names) = isAbsolute folder := by
  have hrelative := isAbsolute_intercalate hne hnames
  unfold childPath
  rcases base?_eq_some hbase with ⟨rfl, habs, -⟩ | hleads
  · exact hrelative.trans habs.symm
  · rw [if_neg (by simpa using hleads.named), isAbsolute_join, hrelative, hleads.isAbsolute_eq,
      Bool.false_or]

theorem fileName?_childPath : fileName? (childPath base names) = names.getLast? := by
  obtain ⟨front, hpieces, -⟩ := pieces_childPath hbase hne hnames
  obtain ⟨upper, last, rfl⟩ := (List.eq_nil_or_concat' names).resolve_left hne
  have hmeant : ∃ cs, meant (pieces (childPath base (upper ++ [last]))) = cs ++ [.normal last] := by
    refine ⟨meant (front ++ upper.map String.toList), ?_⟩
    rw [hpieces, List.map_append, ← List.append_assoc, meant_append _ (List.map _ _)]
    rw [meant, meant, List.map_singleton,
      List.filterMap_cons_some (hnames last (by simp)).1]
    rfl
  obtain ⟨cs, hcs⟩ := hmeant
  have hlast : (components (childPath base (upper ++ [last]))).getLast? = some (.normal last) := by
    rcases components_cases (childPath base (upper ++ [last])) with h | ⟨-, h⟩ <;> rw [h, hcs]
    · rw [← List.append_assoc, List.getLast?_concat]
    · rw [← List.cons_append, List.getLast?_concat]
  rw [fileName?, hlast, List.getLast?_concat]

theorem checked_childPath (hfolder : Disk.checked folder = .ok ())
    (hplain : ∀ name ∈ names, '\x00' ∉ name.toList) :
    Disk.checked (childPath base names) = .ok () := by
  rw [Disk.checked_eq_ok] at hfolder ⊢
  obtain ⟨front, hpieces, -⟩ := pieces_childPath hbase hne hnames
  constructor
  · intro hempty
    obtain ⟨name, more, rfl⟩ := List.exists_cons_of_ne_nil hne
    have hmem : name.toList ∈ pieces "" := by
      rw [← hempty, hpieces]
      simp
    have hname := (hnames name List.mem_cons_self).1
    rw [List.mem_singleton.1 hmem] at hname
    cases hname
  · intro hnul
    have hbelow : '\x00' ∉ ("/".intercalate names).toList := by
      rw [String.toList_intercalate]
      intro hnul
      rcases mem_of_mem_intercalate hnul with hslash | ⟨piece, hpiece, hnul⟩
      · exact absurd hslash (by decide)
      · obtain ⟨name, hname, rfl⟩ := List.mem_map.1 hpiece
        exact hplain name hname hnul
    unfold childPath at hnul
    rcases base?_eq_some hbase with ⟨rfl, -, -⟩ | hleads
    · exact hbelow hnul
    · rw [if_neg (by simpa using hleads.named)] at hnul
      rcases mem_of_mem_join hnul with hpath | hslash | hnul
      · rcases hleads.plain _ hpath with hslash | ⟨piece, hpiece, hnul⟩
        · exact absurd hslash (by decide)
        · exact hfolder.2 (mem_of_mem_splitAt hpiece _ hnul).1
      · exact absurd hslash (by decide)
      · exact hbelow hnul

end

/-- A source file is one whose name ends as the walk looks for. -/
theorem isSource_iff {names : List String} :
    isSource names = true ↔ ∃ upper stem, names = upper ++ [stem ++ ".cs"] := by
  rw [isSource, Option.any_eq_true]
  constructor
  · rintro ⟨name, hname, hends⟩
    obtain ⟨upper, rfl⟩ := List.getLast?_eq_some_iff.1 hname
    obtain ⟨stem, hstem⟩ := Option.isSome_iff_exists.1 hends
    refine ⟨upper, String.ofList stem, ?_⟩
    rw [← String.ofList_toList (s := name), stripEnd?_eq_some.1 hstem, String.ofList_append,
      String.ofList_toList]
  · rintro ⟨upper, stem, rfl⟩
    refine ⟨stem ++ ".cs", List.getLast?_concat, Option.isSome_iff_exists.2 ⟨stem.toList, ?_⟩⟩
    rw [stripEnd?_eq_some, String.toList_append]

/-- A file with the extension is a source file. -/
theorem isSource_of_extension {names : List String} {path : String}
    (hname : fileName? path = names.getLast?) (h : extension? path = some "cs") :
    isSource names = true := by
  obtain ⟨name, hlast, hpieces⟩ := Option.bind_eq_some_iff.1 h
  rw [hname] at hlast
  obtain ⟨upper, rfl⟩ := List.getLast?_eq_some_iff.1 hlast
  split at hpieces
  · rename_i last before more hreverse
    rw [Option.ite_none_left_eq_some, Option.some.injEq] at hpieces
    have hsplit : splitAt (· == '.') name.toList = (before :: more).reverse ++ [last] := by
      rw [← List.reverse_cons, ← hreverse, List.reverse_reverse]
    obtain ⟨stem, c, hc, hstem⟩ := exists_of_splitAt_concat hsplit (by simp)
    refine isSource_iff.2 ⟨upper, String.ofList stem, ?_⟩
    have hext : String.ofList ('.' :: last) = ".cs" := by
      rw [show last = "cs".toList by rw [← hpieces.2, String.toList_ofList]]
      rfl
    rw [← String.ofList_toList (s := name), hstem, eq_of_beq hc, String.ofList_append, hext]
  · cases hpieces

/-- The path that the files are named from leads to the folder. -/
theorem find_base {d : Disk} {folder base : String} {l : Location}
    (hbase : base? folder = some base) (hfolder : d.find folder = .ok (l, .folder)) :
    d.find base = .ok (l, .folder) := by
  obtain ⟨hchecked, hfollow, hl⟩ := Disk.find_eq_ok.1 hfolder
  obtain ⟨hway, hdest⟩ := Disk.passable_of_followAll hfollow
  rcases base?_eq_some hbase with ⟨rfl, habs, hmeant⟩ | hleads
  · rw [hmeant, Disk.start, habs] at hdest
    subst hdest
    have hdot : d.followAll (d.start ".") (pieces ".") = .ok d.workingFolder :=
      Disk.Open.followAll ⟨trivial, d.node?_start "."⟩
    exact Disk.find_eq_ok.2 ⟨rfl, hdot, hl⟩
  · have hstart : d.start base = d.start folder := by
      rw [Disk.start, Disk.start, hleads.isAbsolute_eq]
    have hopen : d.Open (d.start folder) (meant (pieces base)) := by
      rw [hleads.meant_eq]
      exact ⟨hway, hdest ▸ hl⟩
    refine Disk.find_eq_ok.2 ⟨Disk.checked_eq_ok.2 ⟨hleads.filled, fun hnul => ?_⟩, ?_, hl⟩
    · rcases hleads.plain _ hnul with hslash | ⟨piece, hpiece, hnul⟩
      · exact absurd hslash (by decide)
      · exact (Disk.checked_eq_ok.1 hchecked).2 (mem_of_mem_splitAt hpiece _ hnul).1
    · rw [hstart, hopen.followAll, hleads.meant_eq, ← hdest]

/-- The path of a file leads to it. -/
theorem find_childPath {d : Disk} (hd : d.IsTree) {folder base : String} {l : Location}
    (hbase : base? folder = some base) (hfolder : d.find folder = .ok (l, .folder))
    {names : List String} {content : FileContent}
    (hfile : d.node? (l ++ names) = some (.file content)) :
    d.find (childPath base names) = .ok (l ++ names, .file content) := by
  obtain ⟨hchecked, hfollow, hl⟩ := Disk.find_eq_ok.1 hfolder
  have hne : names ≠ [] := by
    rintro rfl
    rw [List.append_nil, hl] at hfile
    cases hfile
  have hentries := (hd.passable_names hfile).2
  have hnames : ∀ name ∈ names, IsName name := fun name hname => (hentries name hname).isName
  have hplain : ∀ name ∈ names, '\x00' ∉ name.toList := fun name hname =>
    (hentries name hname).noNul
  obtain ⟨front, hpieces, hfront⟩ := pieces_childPath hbase hne hnames
  have hstart : d.start (childPath base names) = d.start folder := by
    rw [Disk.start, Disk.start, isAbsolute_childPath hbase hne hnames]
  obtain ⟨hway, hdest⟩ := Disk.passable_of_followAll hfollow
  have hopen : d.Open (d.start folder) (meant front) := by
    rw [hfront]
    exact ⟨hway, hdest ▸ hl⟩
  refine Disk.find_eq_ok.2 ⟨checked_childPath hbase hne hnames hchecked hplain, ?_, hfile⟩
  rw [hstart, hpieces, Disk.followAll_append hopen.followAll, hfront, ← hdest]
  exact hd.followAll_names hfile

end Sources
end DocPages
