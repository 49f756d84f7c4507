/-
What is built is documented.

The lines of a comment are taken out of their decoration, and those that are left are not
empty and have no blanks at their ends.  So markup that is not empty is made of such lines,
and so is what comes of joining it (`IsProse.join`).  Items are only made with markup, and
parts only add to it, so every item of a project that files make has a name and
documentation (`documented_build`).
-/
import DocPages.Proofs.Project.Turns
import DocPages.Proofs.Text.Cutting
import DocPages.Proofs.Text.Pieces

namespace DocPages

open Text

namespace Comment

/-! ## Lines without decoration -/

/-- A line that is not empty and has no blanks at its ends. -/
structure IsLine (line : List Char) : Prop where
  ne_nil : line ≠ []
  oneLine : '\n' ∉ line
  starts : Stops isBlank line
  ends : Stops isBlank line.reverse

theorem trimStart_subset (s : List Char) : trimStart s ⊆ s :=
  (List.dropWhile_suffix isBlank).subset

theorem trim_subset (s : List Char) : trim s ⊆ s := (infix_trim s).subset

theorem isLine_trim {s : List Char} (hs : '\n' ∉ s) (hne : trim s ≠ []) : IsLine (trim s) where
  ne_nil := hne
  oneLine := fun h => hs (trim_subset s h)
  starts := by
    intro c hc
    apply stops_dropWhile isBlank s
    obtain ⟨rest, hrest⟩ := trimEnd_isPrefix (trimStart s)
    obtain ⟨more, hmore⟩ := List.head?_eq_some_iff.1 hc
    rw [← trim, hmore] at hrest
    rw [← trimStart, ← hrest]
    rfl
  ends := by
    rw [trim, trimEnd, List.reverse_reverse]
    exact stops_dropWhile isBlank _

theorem stripStart?_subset {mark s rest : List Char} (h : stripStart? mark s = some rest) :
    rest ⊆ s := by
  rw [stripStart?_eq_some.1 h]
  exact List.subset_append_right mark rest

theorem stripStart?_getD_subset (mark s : List Char) : (stripStart? mark s).getD s ⊆ s := by
  cases h : stripStart? mark s with
  | none => exact List.Subset.refl s
  | some rest => exact stripStart?_subset h

theorem stripEnd?_subset {mark s rest : List Char} (h : stripEnd? mark s = some rest) :
    rest ⊆ s := by
  obtain ⟨reversed, hreversed, rfl⟩ := Option.map_eq_some_iff.1 h
  intro c hc
  exact List.mem_reverse.1 (stripStart?_subset hreversed (List.mem_reverse.1 hc))

/-- A line is trimmed last of all, whatever decoration it had. -/
theorem bareBlockLine_eq_trim (opened : Bool) (line : List Char) :
    ∃ s, (bareBlockLine opened line).1 = trim s ∧ s ⊆ line := by
  have hbody : ∀ body, body ⊆ line →
      dropSlashes (trimStart (if opened then body else (stripStart? ['*'] body).getD body)) ⊆
        line := by
    intro body hbody
    refine List.Subset.trans (stripStart?_getD_subset _ _)
      (List.Subset.trans (trimStart_subset _) ?_)
    split
    · exact hbody
    · exact List.Subset.trans (stripStart?_getD_subset _ body) hbody
  unfold bareBlockLine
  cases h : stripEnd? "*/".toList line with
  | some body => exact ⟨_, rfl, hbody body (stripEnd?_subset h)⟩
  | none => exact ⟨_, rfl, hbody line (List.Subset.refl line)⟩

theorem bareLine_eq_trim (inBlock : Bool) (line : List Char) :
    ∃ s, (bareLine inBlock line).1 = trim s ∧ s ⊆ line := by
  unfold bareLine
  simp only
  split
  · rename_i body h
    obtain ⟨s, hs, hsub⟩ := bareBlockLine_eq_trim true body
    exact ⟨s, hs, List.Subset.trans hsub
      (List.Subset.trans (stripStart?_subset h) (trim_subset line))⟩
  · split
    · obtain ⟨s, hs, hsub⟩ := bareBlockLine_eq_trim false (trim line)
      exact ⟨s, hs, List.Subset.trans hsub (trim_subset line)⟩
    · exact ⟨_, rfl, List.Subset.trans (stripStart?_getD_subset _ _) (trim_subset line)⟩

theorem exists_of_mem_bareLines {inBlock : Bool} {ls : List (List Char)} {bare : List Char}
    (h : bare ∈ bareLines inBlock ls) : ∃ line ∈ ls, ∃ s, bare = trim s ∧ s ⊆ line := by
  induction ls generalizing inBlock with
  | nil => cases h
  | cons line rest ih =>
      rcases List.mem_cons.1 h with rfl | h
      · exact ⟨line, List.mem_cons_self, bareLine_eq_trim inBlock line⟩
      · obtain ⟨line', hline', hs⟩ := ih h
        exact ⟨line', List.mem_cons_of_mem _ hline', hs⟩

theorem isLine_of_mem_contentLines {raw line : List Char} (h : line ∈ contentLines raw) :
    IsLine line := by
  obtain ⟨hbare, hne⟩ := List.mem_filter.1 h
  obtain ⟨source, hsource, s, rfl, hsub⟩ := exists_of_mem_bareLines hbare
  exact isLine_trim (fun hmem => newline_notMem_lines hsource (hsub hmem)) (by simpa using hne)

/-! ## Prose -/

/-- One or more lines, with a line break between each two. -/
def IsProse (markup : String) : Prop :=
  ∃ lines, lines ≠ [] ∧ (∀ line ∈ lines, IsLine line) ∧
    markup = String.ofList (List.intercalate ['\n'] lines)

theorem isProse_normalize {raw : String} (h : normalize raw ≠ "") : IsProse (normalize raw) := by
  refine ⟨contentLines raw.toList, ?_, fun line => isLine_of_mem_contentLines, rfl⟩
  intro hnil
  rw [normalize, hnil] at h
  exact h rfl

theorem intercalate_append {sep : List Char} {a b : List (List Char)} (ha : a ≠ [])
    (hb : b ≠ []) :
    List.intercalate sep (a ++ b) = List.intercalate sep a ++ sep ++ List.intercalate sep b := by
  induction a with
  | nil => exact absurd rfl ha
  | cons first rest ih =>
      rw [List.cons_append, List.intercalate_cons_of_ne_nil (List.append_ne_nil_of_right_ne_nil _ hb)]
      cases rest with
      | nil => rw [List.nil_append, List.intercalate_singleton]
      | cons second more =>
          rw [ih (List.cons_ne_nil _ _), List.intercalate_cons_of_ne_nil (List.cons_ne_nil _ _)]
          simp only [List.append_assoc]

theorem IsProse.join {a b : String} (ha : IsProse a) (hb : IsProse b) :
    IsProse (a ++ "\n" ++ b) := by
  obtain ⟨first, hfirst, hlines, rfl⟩ := ha
  obtain ⟨second, hsecond, hlines', rfl⟩ := hb
  refine ⟨first ++ second, List.append_ne_nil_of_left_ne_nil hfirst _,
    List.forall_mem_append.2 ⟨hlines, hlines'⟩, ?_⟩
  rw [intercalate_append hfirst hsecond, String.ofList_append, String.ofList_append]

/-- Prose starts with a character that is not blank. -/
theorem IsProse.not_allBlank {markup : String} (h : IsProse markup) :
    allBlank markup.toList = false := by
  obtain ⟨lines, hne, hlines, rfl⟩ := h
  obtain ⟨line, rest, rfl⟩ := List.exists_cons_of_ne_nil hne
  have hline := hlines line List.mem_cons_self
  obtain ⟨c, more, rfl⟩ := List.exists_cons_of_ne_nil hline.ne_nil
  have hblank : isBlank c = false := hline.starts c rfl
  have hhead : ∃ tail, List.intercalate ['\n'] ((c :: more) :: rest) = c :: tail := by
    cases rest with
    | nil => exact ⟨more, List.intercalate_singleton⟩
    | cons second others => exact ⟨_, List.intercalate_cons_cons⟩
  obtain ⟨tail, htail⟩ := hhead
  rw [String.toList_ofList, htail, allBlank, List.all_cons, hblank, Bool.false_and]

end Comment

/-! ## Items -/

/-- The item has a name, and its documentation is prose. -/
structure Item.IsDocumented (item : Item) : Prop where
  named : Project.isBlankName item.name = false
  prose : Comment.IsProse item.markup

/-- A part that says nothing adds nothing, and any other adds prose. -/
theorem Item.IsDocumented.merge {item part : Item} (h : item.IsDocumented)
    (hpart : part.markup ≠ "" → Comment.IsProse part.markup) : (item.merge part).IsDocumented := by
  refine ⟨h.named, ?_⟩
  rw [Item.merge]
  simp only
  split
  · exact h.prose
  · rename_i hsays
    rw [Bool.or_eq_true, not_or, String.isEmpty_iff] at hsays
    split
    · exact hpart hsays.1
    · exact h.prose.join (hpart hsays.1)

namespace Project

/-- All items have names and documentation. -/
def AllDocumented (p : Project) : Prop := ∀ id item, p.item? id = some item → item.IsDocumented

theorem AllDocumented.turn {package : String} {index : Nat} {d : Declaration} {p q : Project}
    {opened opened' : List OpenType} (hp : p.AllDocumented)
    (hopen : Building.OpenIn p opened)
    (h : Building.Turn package index d p opened q opened') : q.AllDocumented := by
  intro id new hnew
  rcases h.item_cases hopen hnew with ⟨item, hitem, hcarries⟩ | hmade
  · cases hcarries with
    | members => exact ⟨(hp id item hitem).named, (hp id item hitem).prose⟩
    | merge => exact (hp id item hitem).merge Comment.isProse_normalize
  · obtain ⟨_, hmarkup, parent, name, members, _, _, hname, rfl⟩ := hmade
    have hnamed : isBlankName name = false := by
      simpa using (List.mem_filter.1 (List.mem_of_getElem? hname)).2
    exact ⟨hnamed, Comment.isProse_normalize hmarkup⟩

theorem documented_build (files : List SourceFile) : (build files).AllDocumented := by
  have hempty : AllDocumented {} := by simp [AllDocumented, item?]
  refine foldl_keeps (fun file _ p hp h => ?_) empty_isForest hempty
  exact addFile_keeps (I := fun p _ => p.AllDocumented)
    (fun _ _ _ _ _ _ _ _ hopen hturn h => h.turn hopen hturn) (fun _ _ _ _ h => h) hp h

/-! ## Other kinds -/

theorem IsContainer.setKinds {p : Project} {id : ItemId} (h : p.IsContainer id)
    (kinds : List (ItemId × String)) : (p.setKinds kinds).IsContainer id := by
  obtain ⟨item, hitem, hc⟩ := h
  have hlt : id < (p.setKinds kinds).items.size := by
    rw [size_of_shape (shape_setKinds p kinds)]
    exact (Array.getElem?_eq_some_iff.1 hitem).1
  have hnew : (p.setKinds kinds).item? id = some (p.setKinds kinds).items[id] :=
    Array.getElem?_eq_getElem hlt
  obtain ⟨old, kind, hold, heq⟩ := item_of_setKinds hnew
  rw [hitem, Option.some.injEq] at hold
  subst hold
  exact ⟨_, hnew, by rw [heq]; exact hc⟩

theorem AllDocumented.setKinds {p : Project} (hp : p.AllDocumented)
    (kinds : List (ItemId × String)) : (p.setKinds kinds).AllDocumented := by
  intro id new hnew
  obtain ⟨item, kind, hitem, rfl⟩ := item_of_setKinds hnew
  exact ⟨(hp id item hitem).named, (hp id item hitem).prose⟩

end Project
end DocPages
