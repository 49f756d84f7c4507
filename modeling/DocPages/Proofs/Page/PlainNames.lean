/-
File names of pages are names for a file system.

A page is named after its item, after the pages above it, and with a number if the name is
taken.  None of this brings in a slash that the names of the items do not have.
-/
import DocPages.Proofs.Files.Paths
import DocPages.Proofs.Naming.Hyphens
import DocPages.Proofs.Page.Links
import DocPages.Proofs.Project.Sources
import DocPages.Proofs.Text.Digits

namespace DocPages
namespace Page

open Names

/-- A name without a slash. -/
def Whole (name : String) : Prop := '/' ∉ name.toList

theorem Whole.append {a b : String} (ha : Whole a) (hb : Whole b) : Whole (a ++ b) := by
  rw [Whole, String.toList_append, List.mem_append, not_or]
  exact ⟨ha, hb⟩

theorem whole_hyphen : Whole "-" := by
  unfold Whole
  decide

theorem whole_number (n : Nat) : Whole (toString n) :=
  Text.notMem_toString (by decide) n

theorem whole_pageName {name : String} (h : Whole name) : Whole (Naming.pageName name) := by
  rw [Whole, Naming.pageName, String.toList_ofList]
  intro hmem
  rcases Naming.mem_of_mem_hyphenated hmem with hname | hhyphen
  · exact h hname
  · cases hhyphen

theorem whole_firstFree (used : List String) {wanted : String} (h : Whole wanted) :
    Whole (firstFree used wanted) := by
  rcases granted_firstFree used wanted with ⟨_, heq⟩ | ⟨_, n, _, heq, _⟩
  · rw [heq]
    exact h
  · rw [heq]
    exact (h.append whole_hyphen).append (whole_number n)

theorem whole_wantedName {above : Option String} (ha : ∀ name ∈ above, Whole name) {e : Entry}
    (he : Whole e.item.name) : Whole (wantedName above e) := by
  cases above with
  | none => exact whole_pageName he
  | some parent => exact ((ha parent rfl).append whole_hyphen).append (whole_pageName he)

mutual
theorem whole_grants (inline : Bool) (above : Option String) (ha : ∀ name ∈ above, Whole name)
    (used : List String) (tree : Outline) (ht : ∀ e ∈ tree.paged inline, Whole e.item.name) :
    ∀ g ∈ grants inline above used tree, Whole g.name := by
  match tree with
  | .node e leaves nested =>
    rw [grants]
    rw [Outline.paged] at ht
    split
    · exact nofun
    · rename_i hb
      rw [if_neg hb] at ht
      have hname := whole_firstFree used (whole_wantedName ha (ht e List.mem_cons_self))
      intro g hg
      rcases List.mem_cons.1 hg with rfl | hg
      · exact hname
      · cases inline with
        | true => cases hg
        | false =>
            refine whole_grantsEach false (some _) ?_ _ nested ?_ g hg
            · rintro _ ⟨⟩
              exact hname
            · exact fun m hm => ht m (List.mem_cons_of_mem _ hm)

theorem whole_grantsEach (inline : Bool) (above : Option String) (ha : ∀ name ∈ above, Whole name)
    (used : List String) (trees : List Outline)
    (ht : ∀ e ∈ pagedEach inline trees, Whole e.item.name) :
    ∀ g ∈ grantsEach inline above used trees, Whole g.name := by
  match trees with
  | [] => exact nofun
  | first :: rest =>
    rw [grantsEach]
    rw [pagedEach] at ht
    intro g hg
    rcases List.mem_append.1 hg with hg | hg
    · have hfirst : ∀ e ∈ first.paged inline, Whole e.item.name := fun e he =>
        ht e (List.mem_append_left _ he)
      exact whole_grants inline above ha used first hfirst g hg
    · have hrest : ∀ e ∈ pagedEach inline rest, Whole e.item.name := fun e he =>
        ht e (List.mem_append_right _ he)
      exact whole_grantsEach inline above ha _ rest hrest g hg
end

section Forest

variable {p : Project} (hp : p.IsForest) (hnames : p.NamesAll Whole) (o : Options)

include hp hnames

theorem whole_used_write {names : Names} (h : ∀ name ∈ names.used, Whole name) (id : ItemId) :
    ∀ name ∈ (write p o names id).1.used, Whole name := by
  rcases Nat.lt_or_ge id p.items.size with hid | hid
  · obtain ⟨e, he, rfl, hof⟩ := exists_entry hid
    rw [write_eq he]
    intro name hname
    rcases List.mem_append.1 hname with hgiven | hused
    · obtain ⟨g, hg, rfl⟩ := List.mem_map.1 (List.mem_reverse.1 hgiven)
      refine whole_grants o.inlineTypes none (fun _ h => nomatch h) _ _
        (fun m hm => ?_) g hg
      have hmet := (paged_sublist o.inlineTypes _).subset hm
      exact hnames _ _ ((mem_met hp o.kinds hof m).1 hmet).1.1
    · exact h name hused
  · rw [write_outside hid]
    exact h

theorem whole_fileNames (ids : List ItemId) :
    ∀ name ∈ fileNames (writeAll p o {} ids).1, Whole name := by
  have hused : ∀ names : Names, (∀ name ∈ names.used, Whole name) →
      ∀ name ∈ (namesAfter p o names ids).used, Whole name := by
    induction ids with
    | nil => exact fun _ h => h
    | cons id rest ih => exact fun _ h => ih _ (whole_used_write hp hnames o h id)
  intro name hname
  refine hused {} nofun name ?_
  rw [used_namesAfter hp, List.append_nil]
  exact List.mem_reverse.2 hname

end Forest

/-- The files of pages have names that go down. -/
theorem isName_of_whole {name : String} (h : Whole name) : Path.IsName (name ++ ".md") := by
  have hm : 'm' ∈ (name ++ ".md").toList := by simp
  have hne : ∀ piece : List Char, 'm' ∉ piece → (name ++ ".md").toList ≠ piece := by
    rintro piece hpiece rfl
    exact hpiece hm
  constructor
  · unfold Path.component?
    rw [if_neg (not_or.2 ⟨hne [] (by decide), hne ['.'] (by decide)⟩),
      if_neg (hne ['.', '.'] (by decide)), String.ofList_toList]
  · exact h.append (by unfold Whole; decide)

end Page
end DocPages
