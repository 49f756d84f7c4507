/-
Disks that are trees.

What stands on a disk stands in a folder of that disk, under a name that a path can lead to.
`IsTree` says so, and what a run asks of a disk keeps it.  The files below a folder are then
what they are said to be: each is listed once, by the names that lead to it.
-/
import DocPages.Proofs.Files.Mishaps

namespace DocPages
namespace Disk

open DocPages.Path Text

/-- A name that something in a folder can have. -/
structure IsEntry (name : String) : Prop where
  isName : IsName name
  noNul : '\x00' ∉ name.toList
  fits : byteLength name.toList ≤ 255

instance (name : String) : Decidable (IsEntry name) :=
  decidable_of_iff
    ((component? name.toList = some (.normal name) ∧ '/' ∉ name.toList) ∧ '\x00' ∉ name.toList ∧
      byteLength name.toList ≤ 255)
    ⟨fun ⟨hname, hnul, hfits⟩ => ⟨hname, hnul, hfits⟩,
      fun ⟨hname, hnul, hfits⟩ => ⟨hname, hnul, hfits⟩⟩

/-- Everything on the disk stands in a folder, once and under a name. -/
structure IsTree (d : Disk) : Prop where
  single : d.nodes.Pairwise (·.1 ≠ ·.1)
  /-- Nothing is hidden by the root or the working folder. -/
  shown : ∀ entry ∈ d.nodes, d.node? entry.1 = some entry.2
  placed : ∀ l name, d.node? (l ++ [name]) ≠ none → d.node? l = some .folder ∧ IsEntry name

theorem isTree_empty : IsTree {} := by
  refine ⟨List.Pairwise.nil, nofun, fun l name h => ?_⟩
  cases l <;> exact absurd rfl h

/-! ## Pieces of paths -/

/-- A piece that a path can have. -/
def IsPlain (piece : List Char) : Prop := '/' ∉ piece ∧ '\x00' ∉ piece

theorem plain_pieces {path : String} (h : checked path = .ok ()) :
    ∀ piece ∈ pieces path, IsPlain piece := fun _ hpiece =>
  ⟨notMem_of_mem_splitAt hpiece,
    fun hnul => (checked_eq_ok.1 h).2 (mem_of_mem_splitAt hpiece _ hnul).1⟩

theorem plain_namesOf {path : String} (h : checked path = .ok ()) :
    ∀ name ∈ namesOf path, IsPlain name := by
  have hwritten : ∀ name ∈ (meant (pieces path)).filterMap written?, IsPlain name := by
    intro name hname
    obtain ⟨c, hc, hname⟩ := List.mem_filterMap.1 hname
    obtain ⟨piece, hpiece, hcomponent⟩ := List.mem_filterMap.1 hc
    have hplain := plain_pieces h piece hpiece
    rcases component?_eq_some hcomponent with ⟨rfl, rfl⟩ | ⟨-, -, -, rfl⟩
    · cases hname
      exact hplain
    · rw [written?, String.toList_ofList] at hname
      cases hname
      exact hplain
  rcases namesOf_cases path with hnames | hnames <;> rw [hnames]
  · exact hwritten
  · exact List.forall_mem_cons.2 ⟨⟨by decide, by decide⟩, hwritten⟩

theorem find_eq_ok {d : Disk} {path : String} {l : Location} {n : FileNode} :
    d.find path = .ok (l, n) ↔
      checked path = .ok () ∧ d.followAll (d.start path) (pieces path) = .ok l ∧
        d.node? l = some n := by
  unfold find
  simp only [bind_eq_ok]
  constructor
  · rintro ⟨_, hchecked, m, hfollow, hfound⟩
    split at hfound
    · rename_i hnode
      cases hfound
      exact ⟨hchecked, hfollow, hnode⟩
    · cases hfound
  · rintro ⟨hchecked, hfollow, hnode⟩
    exact ⟨(), hchecked, l, hfollow, by rw [hnode]⟩

/-! ## Names behind a location -/

theorem dest_names (l names : List String) : dest l (names.map .normal) = l ++ names := by
  induction names generalizing l with
  | nil => exact (List.append_nil l).symm
  | cons name rest ih =>
      rw [List.map_cons, dest, List.foldl_cons, ← dest, ih, goOn, List.append_assoc]
      rfl

/-- The names that lead from a folder to a file, if they do. -/
def listed? (l : Location) : Location × FileNode → Option (List String)
  | (at_, .file _) => if l.isPrefixOf at_ then some (at_.drop l.length) else none
  | (_, .folder) => none

theorem listed?_eq_some {l : Location} {entry : Location × FileNode} {names : List String} :
    listed? l entry = some names ↔ ∃ content, entry = (l ++ names, .file content) := by
  obtain ⟨at_, n⟩ := entry
  cases n with
  | folder => simp [listed?]
  | file content =>
      simp only [listed?, Option.ite_none_right_eq_some, Option.some.injEq, Prod.mk.injEq,
        List.isPrefixOf_iff_prefix]
      constructor
      · rintro ⟨⟨names, rfl⟩, rfl⟩
        exact ⟨content, by rw [List.drop_left], rfl⟩
      · rintro ⟨_, rfl, -⟩
        exact ⟨List.prefix_append l names, List.drop_left⟩

theorem filesBelow_eq {d : Disk} {path : String} {l : Location}
    (h : d.find path = .ok (l, .folder)) : d.filesBelow path = d.nodes.filterMap (listed? l) := by
  rw [filesBelow, h]
  refine List.filterMap_congr fun entry _ => ?_
  obtain ⟨at_, _ | _⟩ := entry <;> rfl

/-! ## Changes -/

namespace IsTree

variable {d : Disk} (h : d.IsTree)

include h

theorem put {l : Location} {name : String} (hl : d.node? l = some .folder) (hname : IsEntry name)
    (hfree : d.node? (l ++ [name]) ≠ some .folder) (n : FileNode) :
    (d.put (l ++ [name]) n).IsTree := by
  have hput := node?_put hfree n
  have hkept : ∀ m, d.node? m = some .folder →
      (d.put (l ++ [name]) n).node? m = some .folder := by
    intro m hm
    rw [hput, if_neg (by rintro rfl; exact hfree hm)]
    exact hm
  refine ⟨?_, ?_, ?_⟩
  · refine List.pairwise_cons.2 ⟨fun entry hentry => ?_, h.single.filter _⟩
    exact fun heq => bne_iff_ne.1 (List.mem_filter.1 hentry).2 heq.symm
  · intro entry hentry
    rw [hput]
    rcases List.mem_cons.1 hentry with rfl | hentry
    · exact if_pos rfl
    · obtain ⟨hmem, hne⟩ := List.mem_filter.1 hentry
      rw [if_neg (bne_iff_ne.1 hne)]
      exact h.shown entry hmem
  · intro m other hm
    rw [hput] at hm
    split at hm
    · rename_i heq
      obtain ⟨rfl, hother⟩ := List.append_inj' heq rfl
      cases hother
      exact ⟨hkept m hl, hname⟩
    · obtain ⟨hfolder, hentry⟩ := h.placed m other hm
      exact ⟨hkept m hfolder, hentry⟩

omit h in
/-- Several files are put into a folder. -/
theorem putFiles {d : Disk} (h : d.IsTree) {l : Location} (hl : d.node? l = some .folder)
    {files : List (String × FileContent)} (hnames : ∀ file ∈ files, IsEntry file.1)
    (hfree : ∀ file ∈ files, d.node? (l ++ [file.1]) ≠ some .folder) :
    (files.foldl (fun d file => d.put (l ++ [file.1]) (.file file.2)) d).IsTree := by
  induction files generalizing d with
  | nil => exact h
  | cons file rest ih =>
      obtain ⟨hname, hnames⟩ := List.forall_mem_cons.1 hnames
      obtain ⟨hfirst, hfree⟩ := List.forall_mem_cons.1 hfree
      have hput := node?_put hfirst (.file file.2)
      refine ih (h.put hl hname hfirst _) ?_ hnames fun other hother => ?_
      · rw [hput, if_neg (by simp)]
        exact hl
      · rw [hput]
        split
        · exact nofun
        · exact hfree other hother

/-- What is above a folder is a folder. -/
theorem dropLast {l : Location} (hl : d.node? l = some .folder) :
    d.node? l.dropLast = some .folder := by
  rcases List.eq_nil_or_concat' l with rfl | ⟨front, name, rfl⟩
  · exact hl
  · rw [List.dropLast_concat]
    exact (h.placed front name (by rw [hl]; exact nofun)).1

/-- What a path leads to is a folder, or has a name in one. -/
theorem exists_entry {l m : Location} {ps : List (List Char)} (hl : d.node? l = some .folder)
    (hps : ∀ piece ∈ ps, IsPlain piece) (hf : d.followAll l ps = .ok m)
    (hm : d.node? m ≠ some .folder) :
    ∃ front name, m = front ++ [name] ∧ d.node? front = some .folder ∧ IsEntry name := by
  obtain ⟨hway, rfl⟩ := passable_of_followAll hf
  rcases List.eq_nil_or_concat' (meant ps) with hnil | ⟨cs, c, hcs⟩
  · rw [hnil] at hm
    exact absurd hl hm
  · have hc : c ∈ meant ps := by simp [hcs]
    rw [hcs, passable_append] at hway
    obtain ⟨-, hfolder, hfits, -⟩ := hway
    rw [hcs, dest_append] at hm ⊢
    obtain ⟨piece, hpiece, hcomponent⟩ := List.mem_filterMap.1 hc
    rcases component?_eq_some hcomponent with ⟨-, rfl⟩ | ⟨-, -, -, rfl⟩
    · exact absurd (h.dropLast hfolder) hm
    · obtain ⟨hslash, hnul⟩ := hps piece hpiece
      rw [Fits, String.toList_ofList] at hfits
      refine ⟨_, _, rfl, hfolder, ⟨?_, ?_⟩, ?_, ?_⟩ <;> rw [String.toList_ofList]
      exacts [hcomponent, hslash, hnul, hfits]

theorem write {d' : Disk} {path : String} {content : FileContent}
    (hd' : d.write path content = .ok d') : d'.IsTree := by
  obtain ⟨hchecked, hfollow, hfree, rfl⟩ := write_eq_ok hd'
  obtain ⟨front, name, hl, hfront, hname⟩ :=
    h.exists_entry (d.node?_start path) (plain_pieces hchecked) hfollow hfree
  rw [hl] at hfree ⊢
  exact h.put hfront hname hfree _

theorem ensureFolder {d' : Disk} {l : Location} {ps : List (List Char)}
    (hl : d.node? l = some .folder) (hps : ∀ piece ∈ ps, IsPlain piece)
    (hd' : d.ensureFolder l ps = .ok d') : d'.IsTree := by
  unfold Disk.ensureFolder at hd'
  split at hd'
  · rename_i hmake
    cases hd'
    cases hfollow : d.followAll l (trimmed ps) with
    | error e =>
        rw [makeFolder_of_error hfollow] at hmake
        cases hmake
    | ok target =>
        rw [makeFolder_of_ok hfollow] at hmake
        split at hmake
        · cases hmake
        · rename_i hnone
          cases hmake
          have hfree : d.node? target ≠ some .folder := by
            rw [hnone]
            exact nofun
          obtain ⟨front, name, rfl, hfront, hname⟩ := h.exists_entry hl
            (fun piece hpiece => hps piece ((List.rdropWhile_prefix _ _).mem hpiece)) hfollow hfree
          exact h.put hfront hname hfree _
  · split at hd'
    · split at hd'
      · cases hd'
        exact h
      · cases hd'
    · cases hd'

omit h in
theorem ensureFolders {d : Disk} (h : d.IsTree) {l : Location} (hl : d.node? l = some .folder)
    {ts : List (List (List Char))} (hts : ∀ t ∈ ts, ∀ piece ∈ t, IsPlain piece) :
    (d.ensureFolders l ts).2.IsTree := by
  induction ts with
  | nil => exact h
  | cons t above ih =>
      obtain ⟨ht, habove⟩ := List.forall_mem_cons.1 hts
      have hkept := (ensureFolders_spec d l above).1.kept l _ hl
      unfold Disk.ensureFolders
      split
      · rename_i hfirst
        exact h.ensureFolder hl ht hfirst
      · split
        · split
          · rename_i hmade
            rw [hmade] at ih
            exact ih habove
          · rename_i hmade
            rw [hmade] at ih hkept
            split
            · rename_i hsecond
              exact (ih habove).ensureFolder hkept ht hsecond
            · exact ih habove
        · exact h

theorem makeFolders (path : String) : (d.makeFolders path).2.IsTree := by
  unfold Disk.makeFolders
  split
  · exact h
  · split
    · exact h
    · rename_i hchecked
      refine h.ensureFolders (d.node?_start path)
        (List.forall_mem_cons.2 ⟨plain_pieces hchecked, ?_⟩)
      rw [above_eq]
      rintro t ht piece hpiece
      obtain ⟨n, -, rfl⟩ := List.mem_map.1 ht
      exact plain_namesOf hchecked piece (List.mem_of_mem_take hpiece)

/-- What a run asks for keeps a disk a tree. -/
theorem perform (r : Request) : (d.perform r).2.IsTree := by
  unfold Disk.perform
  cases r with
  | folder path =>
      have hmade := h.makeFolders path
      simp only
      split <;> rename_i heq <;> rw [heq] at hmade <;> exact hmade
  | file path content =>
      simp only
      split
      · rename_i hwrite
        exact h.write hwrite
      · exact h

/-! ## Below a folder -/

/-- What has a file in it is a folder, all the way up. -/
theorem passable_names {l : Location} {names : List String} {n : FileNode}
    (hn : d.node? (l ++ names) = some n) :
    d.Passable l (names.map .normal) ∧ ∀ name ∈ names, IsEntry name := by
  induction names using List.reverseRecOn generalizing n with
  | nil => exact ⟨trivial, nofun⟩
  | append_singleton front name ih =>
      rw [← List.append_assoc] at hn
      obtain ⟨hfolder, hname⟩ := h.placed (l ++ front) name (by rw [hn]; exact nofun)
      obtain ⟨hway, hnames⟩ := ih hfolder
      rw [List.map_append]
      refine ⟨passable_append.2 ⟨hway, ?_⟩, ?_⟩
      · rw [dest_names]
        exact ⟨hfolder, hname.fits, trivial⟩
      · rintro other hother
        rcases List.mem_append.1 hother with hother | hother
        · exact hnames other hother
        · cases List.mem_singleton.1 hother
          exact hname

/-- The names that lead to something can be followed. -/
theorem followAll_names {l : Location} {names : List String} {n : FileNode}
    (hn : d.node? (l ++ names) = some n) :
    d.followAll l (names.map String.toList) = .ok (l ++ names) := by
  induction names generalizing l with
  | nil => rw [List.append_nil]; rfl
  | cons name rest ih =>
      obtain ⟨⟨hl, hfit, -⟩, hnames⟩ := h.passable_names hn
      have hname := (hnames name List.mem_cons_self).isName
      have hsplit : l ++ name :: rest = l ++ [name] ++ rest := List.append_cons l name rest
      rw [hsplit] at hn ⊢
      rw [List.map_cons, followAll_cons_of_ok (follow_of_some hname.1 hl hfit)]
      exact ih hn

theorem mem_filesBelow {path : String} {l : Location} (hfolder : d.find path = .ok (l, .folder))
    {names : List String} :
    names ∈ d.filesBelow path ↔ ∃ content, d.node? (l ++ names) = some (.file content) := by
  rw [filesBelow_eq hfolder, List.mem_filterMap]
  constructor
  · rintro ⟨⟨_, n⟩, hmem, hlisted⟩
    obtain ⟨content, hentry⟩ := listed?_eq_some.1 hlisted
    cases hentry
    exact ⟨content, h.shown _ hmem⟩
  · rintro ⟨content, hnode⟩
    refine ⟨(l ++ names, .file content), ?_, listed?_eq_some.2 ⟨content, rfl⟩⟩
    unfold node? at hnode
    split at hnode
    · cases hnode
    · obtain ⟨before, after, hnodes, -⟩ := List.lookup_eq_some_iff.1 hnode
      rw [hnodes]
      exact List.mem_append_right _ List.mem_cons_self

theorem nodup_filesBelow {path : String} {l : Location}
    (hfolder : d.find path = .ok (l, .folder)) : (d.filesBelow path).Nodup := by
  rw [filesBelow_eq hfolder]
  refine List.Pairwise.filterMap _ (fun a b hne names hx names' hy heq => hne ?_) h.single
  obtain ⟨_, rfl⟩ := listed?_eq_some.1 hx
  obtain ⟨_, rfl⟩ := listed?_eq_some.1 hy
  rw [heq]

end IsTree

end Disk
end DocPages
