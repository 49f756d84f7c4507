/-
File names over many calls, and the links between pages.

Calls on one folder hand on the names in use.  `used_namesAfter` says that these are the
names of the pages written so far, so a page gets a name that no page before it has.  The
names of a call are all given out before its contents are written, so each link to the
page of a nested type finds the name that page got.  `pageLinks_pieces` reads these links off
the text of the page.
-/
import DocPages.Proofs.Page.Contents

namespace DocPages
namespace Page

/-! ## Calls one after the other -/

def fileNames (pages : List WrittenPage) : List String := pages.map WrittenPage.fileName

/-- The names in use after the pages of some items have been written. -/
def namesAfter (p : Project) (o : Options) (names : Names) : List ItemId → Names
  | [] => names
  | id :: rest => namesAfter p o (write p o names id).1 rest

/-- What a call adds to the pages and the reports of the calls before it. -/
theorem writeAll_snoc (p : Project) (o : Options) (names : Names) (ids : List ItemId)
    (id : ItemId) :
    writeAll p o names (ids ++ [id]) =
      ((writeAll p o names ids).1 ++
          (write p o (namesAfter p o names ids) id).2.1.filterMap Output.written?,
        (writeAll p o names ids).2 ++ (write p o (namesAfter p o names ids) id).2.2) := by
  induction ids generalizing names with
  | nil => simp [writeAll, namesAfter]
  | cons first rest ih => simp [writeAll, namesAfter, ih]

theorem fileNames_written (written : List Output) :
    fileNames (written.filterMap Output.written?) =
      (written.filterMap Output.named?).map Prod.snd := by
  rw [fileNames, List.map_filterMap, List.map_filterMap]
  refine List.filterMap_congr fun output _ => ?_
  cases output <;> rfl

theorem write_outside {p : Project} {id : ItemId} (h : p.items.size ≤ id) (o : Options)
    (names : Names) : write p o names id = (names, [], []) := by
  have hnone : entryOf? p id = none := by
    rw [entryOf?, Project.item?, Array.getElem?_eq_none h]
    rfl
  unfold write
  rw [hnone]

theorem nodup_write {p : Project} (o : Options) {names : Names} (h : names.used.Nodup)
    (id : ItemId) :
    (write p o names id).1.used.Nodup := by
  rcases Nat.lt_or_ge id p.items.size with hid | hid
  · obtain ⟨e, he, rfl, hof⟩ := exists_entry hid
    rw [write_eq he]
    exact (inTurn_grants o.inlineTypes none names.used (outline p o.kinds e)).nodup h
  · rwa [write_outside hid]

theorem nodup_namesAfter {p : Project} (o : Options) {names : Names} (h : names.used.Nodup)
    (ids : List ItemId) : (namesAfter p o names ids).used.Nodup := by
  induction ids generalizing names with
  | nil => exact h
  | cons id rest ih => exact ih (nodup_write o h id)

section Forest

variable {p : Project} (hp : p.IsForest) (o : Options)

include hp

/-- A call uses up the names of its pages. -/
theorem used_write (names : Names) (id : ItemId) :
    (write p o names id).1.used =
      (fileNames ((write p o names id).2.1.filterMap Output.written?)).reverse ++ names.used := by
  rcases Nat.lt_or_ge id p.items.size with hid | hid
  · obtain ⟨e, he, rfl, hof⟩ := exists_entry hid
    rw [fileNames_written, named_write hp he hof, write_eq he, List.map_map]
    rfl
  · rw [write_outside hid]
    rfl

theorem used_namesAfter (names : Names) (ids : List ItemId) :
    (namesAfter p o names ids).used =
      (fileNames (writeAll p o names ids).1).reverse ++ names.used := by
  induction ids generalizing names with
  | nil => rfl
  | cons id rest ih =>
      rw [namesAfter, ih, used_write hp, writeAll]
      simp [fileNames]

/-- No two pages of one folder have the same name. -/
theorem nodup_fileNames (ids : List ItemId) : (fileNames (writeAll p o {} ids).1).Nodup := by
  have hnodup := nodup_namesAfter (p := p) o (show ({} : Names).used.Nodup from List.nodup_nil) ids
  rw [used_namesAfter hp, List.append_nil] at hnodup
  exact List.nodup_reverse.1 hnodup

/-! ## The names that pages want -/

/-- The name that a page of a call wants.  The page of the root wants the name of its item,
and a page of a nested type wants that name behind the one that the page of its container
got. -/
inductive Wants (p : Project) (root : ItemId) (pages : List (ItemId × String)) :
    ItemId → String → Prop where
  | root : Wants p root pages root (Naming.pageName (nameAt p root))
  | nested {outer inner : ItemId} {file : String} (hne : inner ≠ root)
      (hparent : p.parent? inner = some outer) (hpage : (outer, file) ∈ pages) :
      Wants p root pages inner (file ++ "-" ++ Naming.pageName (nameAt p inner))

omit hp in
theorem exists_grants_of_mem {inline : Bool} {above : Option String} {used : List String}
    {trees : List Outline} {g : Grant} (h : g ∈ grantsEach inline above used trees) :
    ∃ tree ∈ trees, ∃ used', g ∈ grants inline above used' tree ∧
      ∀ x ∈ grants inline above used' tree, x ∈ grantsEach inline above used trees := by
  induction trees generalizing used with
  | nil => cases h
  | cons first rest ih =>
      rw [grantsEach] at h ⊢
      rcases List.mem_append.1 h with hfirst | hrest
      · exact ⟨first, List.mem_cons_self, used, hfirst, fun x hx => List.mem_append_left _ hx⟩
      · obtain ⟨tree, htree, used', hg, hsub⟩ := ih hrest
        exact ⟨tree, List.mem_cons_of_mem _ htree, used', hg,
          fun x hx => List.mem_append_right _ (hsub x hx)⟩

/-- Each page below the first wants a name behind the one of the page it is nested in. -/
theorem wanted_of_mem_grants (kinds : KindTable) {inline : Bool} {above : Option String}
    {used : List String} {e : Entry} {g : Grant}
    (h : g ∈ grants inline above used (outline p kinds e)) :
    g.entry = e ∧ g.wanted = wantedName above e ∨
      ∃ outer ∈ grants inline above used (outline p kinds e),
        g.entry.id ∈ p.members outer.entry.id ∧
          g.wanted = wantedName (some outer.name) g.entry := by
  induction e using outline_induction p kinds generalizing above used with
  | step e ih =>
      rw [outline_eq, grants] at h ⊢
      split at h
      · cases h
      · rename_i hb
        rw [if_neg hb]
        rcases List.mem_cons.1 h with rfl | hnested
        · exact .inl ⟨rfl, rfl⟩
        · right
          split at hnested
          · cases hnested
          · rename_i hi
            simp only [if_neg hi]
            obtain ⟨tree, htree, used', hg, hsub⟩ := exists_grants_of_mem hnested
            obtain ⟨x, hx, rfl⟩ := List.mem_map.1 htree
            rcases ih x hx hg with ⟨rfl, hwanted⟩ | ⟨outer, houter, hmem, hwanted⟩
            · exact ⟨_, List.mem_cons_self, ((mem_nestedOf hp kinds).1 hx).1, hwanted⟩
            · exact ⟨outer, List.mem_cons_of_mem _ (hsub outer houter), hmem, hwanted⟩

/-- What gets a name in a call stands below the item it is called for. -/
theorem within_of_mem_callGrants (names : Names) {e : Entry} (he : e.Of p) {g : Grant}
    (hg : g ∈ callGrants p o names e) : g.entry.Of p ∧ p.Within g.entry.id e.id := by
  have hmem : g.entry ∈ (outline p o.kinds e).paged o.inlineTypes := by
    rw [← entries_grants o.inlineTypes none names.used]
    exact List.mem_map_of_mem hg
  have hmet := (mem_met hp o.kinds he _).1 ((paged_sublist o.inlineTypes _).mem hmem)
  exact ⟨hmet.1, within_of_met hp hmet.2⟩

theorem wants_of_mem_callGrants (names : Names) {e : Entry} (he : e.Of p) {g : Grant}
    (hg : g ∈ callGrants p o names e) :
    Wants p e.id ((callGrants p o names e).map fun g => (g.entry.id, g.name)) g.entry.id
      g.wanted := by
  have hof := (within_of_mem_callGrants hp o names he hg).1
  rcases wanted_of_mem_grants hp o.kinds hg with ⟨rfl, hwanted⟩ | ⟨outer, houter, hmem, hwanted⟩
  · rw [hwanted, wantedName, hof.name]
    exact .root
  · rw [hwanted, wantedName, hof.name]
    have hle := hp.le_of_within (within_of_mem_callGrants hp o names he houter).2
    have hlt := hp.lt_of_mem_members hmem
    exact .nested (Nat.ne_of_gt (Nat.lt_of_le_of_lt hle hlt)) ((hp.member_iff _ _).1 hmem)
      (List.mem_map_of_mem houter)

/-! ## The lines that lead to other pages -/

/-- The name of a page, which is looked up by its item. -/
def Names.nameOf (names : Names) (id : ItemId) : String := (names.find? id).getD ""

omit hp in
theorem nameOf_eq {names : Names} {id : ItemId} {name : String}
    (h : names.find? id = some name) : names.nameOf id = name := by
  rw [Names.nameOf, h, Option.getD_some]

omit hp in
theorem nestedLines_linked (hi : o.inlineTypes = false) {names : Names} (depth : Nat)
    {entries : List Entry} (h : ∀ e ∈ filled entries, (names.find? e.id).isSome = true) :
    nestedLines o names depth (entries.map (outline p o.kinds)) =
      (filled entries).map fun e => .page depth e.item.kind e.item.name (names.nameOf e.id) := by
  induction entries with
  | nil => rfl
  | cons e rest ih =>
      rw [List.map_cons, nestedLines, entry_outline, hi]
      cases hb : e.isBlank with
      | true =>
          rw [filled_cons_blank hb] at h ⊢
          rw [ih h]
          rfl
      | false =>
          rw [filled_cons_filled hb] at h ⊢
          rw [ih fun m hm => h m (List.mem_cons_of_mem _ hm)]
          obtain ⟨file, hfile⟩ := Option.isSome_iff_exists.1 (h e List.mem_cons_self)
          simp only [Bool.false_eq_true, if_false, hfile, List.map_cons, nameOf_eq hfile]
          rfl

def ContentsLine.isPage : ContentsLine → Bool
  | .anchor .. => false
  | .page .. => true

omit hp in
/-- Where nested types have pages of their own, the lines for them are those behind the
lines for members. -/
theorem pageLines_contentsLines (hi : o.inlineTypes = false) {names : Names} (depth : Nat)
    {e : Entry} (h : ∀ m ∈ filled (nestedOf p o.kinds e.id), (names.find? m.id).isSome = true) :
    (contentsLines o names depth (outline p o.kinds e)).filter ContentsLine.isPage =
      (filled (nestedOf p o.kinds e.id)).map fun m =>
        .page (depth + 1) m.item.kind m.item.name (names.nameOf m.id) := by
  rw [outline_eq, contentsLines, List.cons_append, List.filter_cons_of_neg Bool.false_ne_true,
    List.filter_append, nestedLines_linked o hi (depth + 1) h]
  have hleaves : ∀ leaves : List Entry, (leaves.map fun m =>
      ContentsLine.anchor (depth + 1) m.item.kind m.item.name).filter ContentsLine.isPage = [] := by
    intro leaves
    rw [List.filter_map, List.map_eq_nil_iff, List.filter_eq_nil_iff]
    exact fun _ _ => Bool.false_ne_true
  rw [hleaves, List.nil_append, List.filter_eq_self]
  intro line hline
  obtain ⟨m, _, rfl⟩ := List.mem_map.1 hline
  rfl

omit hp in
/-- The links to other pages that stand on a page are the lines of its contents for them. -/
theorem pageLinks_pieces {parts : List Part} {lines : List ContentsLine}
    (h : parts.filterMap Part.contents? = [lines]) :
    (pieces parts).filterMap Piece.pageLink? =
      (lines.filter ContentsLine.isPage).filterMap fun line => line.piece.pageLink? := by
  rw [filterMap_links (fun _ => rfl) (fun _ _ => rfl) fun _ => rfl, h, List.flatMap_singleton,
    List.filterMap_filter]
  refine List.filterMap_congr fun line _ => ?_
  cases line <;> rfl

/-- The nested types that the contents of a page link to. -/
def linkedIds (p : Project) (kinds : KindTable) (id : ItemId) : List ItemId :=
  (nestedIds p kinds id).filter fun j => !isBlankAt p j

theorem ids_filled_nestedOf (kinds : KindTable) (id : ItemId) :
    (filled (nestedOf p kinds id)).map Entry.id = linkedIds p kinds id := by
  rw [linkedIds, ← ids_nestedOf hp, List.filter_map, filled]
  congr 1
  refine List.filter_congr fun m hm => ?_
  rw [Function.comp_apply, ((mem_nestedOf hp kinds).1 hm).2.1.isBlank]

/-- The lines for nested types, told by the items. -/
theorem pageLines_linked (hi : o.inlineTypes = false) {names : Names} {e : Entry}
    (h : ∀ m ∈ filled (nestedOf p o.kinds e.id), (names.find? m.id).isSome = true) :
    (contentsLines o names 0 (outline p o.kinds e)).filter ContentsLine.isPage =
      (linkedIds p o.kinds e.id).map fun j =>
        .page 1 (kindAt p j) (nameAt p j) (names.nameOf j) := by
  rw [pageLines_contentsLines o hi 0 h, ← ids_filled_nestedOf hp, List.map_map]
  refine List.map_congr_left fun m hm => ?_
  have hof := ((mem_nestedOf hp o.kinds).1 (List.mem_filter.1 hm).1).2.1
  rw [Function.comp_apply, hof.kind, hof.name]

/-- The nested types that a page links to have pages in the same call. -/
theorem exists_grant_of_linked (hi : o.inlineTypes = false) (names : Names) {e m x : Entry}
    (he : e.Of p) (hm : m ∈ (outline p o.kinds e).paged o.inlineTypes)
    (hx : x ∈ filled (nestedOf p o.kinds m.id)) :
    ∃ g ∈ callGrants p o names e, g.entry = x := by
  obtain ⟨hnested, hfilled⟩ := List.mem_filter.1 hx
  obtain ⟨hmem, hof, hc⟩ := (mem_nestedOf hp o.kinds).1 hnested
  have hb : isBlankAt p x.id = false := by simpa [hof.isBlank] using hfilled
  rw [hi] at hm
  obtain ⟨hroot, hchain⟩ := ((mem_paged hp o.kinds he m).1 hm).2
  have hopened : Opened p e.id x.id := ⟨hroot, hchain.tail ⟨hmem, hc, hb⟩⟩
  have hpaged := (mem_paged hp o.kinds he x).2 ⟨hof, hopened⟩
  rw [← hi, ← entries_grants o.inlineTypes none names.used] at hpaged
  exact List.mem_map.1 hpaged

omit hp in
theorem Grant.log_ne_nil_iff {g : Grant} : g.log ≠ [] ↔ g.name ≠ g.wanted := by
  rw [Grant.log]
  split <;> simp_all

omit hp in
/-- The names given out before a page are those of earlier calls and those of the pages
before it in its own. -/
theorem granted_of_callGrants {names : Names} {taken : List String}
    (hused : names.used = taken.reverse) {e : Entry} {before after : List Grant} {g : Grant}
    (h : callGrants p o names e = before ++ g :: after) :
    Granted (taken ++ before.map Grant.name) g.wanted g.name := by
  have hturn := inTurn_grants o.inlineTypes none names.used (outline p o.kinds e)
  rw [← callGrants, h] at hturn
  refine hturn.granted.of_mem_iff fun s => ?_
  rw [hused, List.mem_append, List.mem_append, List.mem_reverse]

/-- The contents of each page of a call link to the pages of its nested types by the names
which they got, and so does the text of the page. -/
theorem lines_of_page (ht : o.writeContents = true) (hi : o.inlineTypes = false) (names : Names)
    {e : Entry} (he : e.Of p) {id : ItemId} {file : String} {written : List Part}
    (hpage : .page id file written ∈
      outputs o (Names.after names (callGrants p o names e)) (outline p o.kinds e)) :
    (∀ j ∈ linkedIds p o.kinds id,
      (j, (Names.after names (callGrants p o names e)).nameOf j) ∈
        (callGrants p o names e).map fun g => (g.entry.id, g.name)) ∧
    (∃ lines, written.filterMap Part.contents? = [lines] ∧
      lines.filter ContentsLine.isPage =
        (linkedIds p o.kinds id).map fun j => .page 1 (kindAt p j) (nameAt p j)
          ((Names.after names (callGrants p o names e)).nameOf j)) ∧
    (pieces written).filterMap Piece.pageLink? =
      (linkedIds p o.kinds id).map fun j => (kindAt p j ++ " " ++ nameAt p j,
        (Names.after names (callGrants p o names e)).nameOf j) := by
  obtain ⟨m, _, rfl, _, hpaged, rfl⟩ := exists_entry_of_page hp o _ hpage he
  have hgrant : ∀ x ∈ filled (nestedOf p o.kinds m.id), ∃ g ∈ callGrants p o names e,
      g.entry = x ∧ (Names.after names (callGrants p o names e)).find? x.id = some g.name := by
    intro x hx
    obtain ⟨g, hg, rfl⟩ := exists_grant_of_linked hp o hi names he hpaged hx
    exact ⟨g, hg, rfl, find?_callGrants hp o names he hg⟩
  generalize Names.after names (callGrants p o names e) = given at hgrant ⊢
  have hcontents : (parts o given (outline p o.kinds m)).filterMap Part.contents? =
      [contentsLines o given 0 (outline p o.kinds m)] := by
    rw [contents_parts, ht, if_pos rfl]
  have hlines := @pageLines_linked p hp o hi given m fun x hx => by
    obtain ⟨g, _, _, hname⟩ := hgrant x hx
    rw [hname]
    rfl
  refine ⟨?_, ⟨_, hcontents, hlines⟩, ?_⟩
  · intro j hj
    rw [← ids_filled_nestedOf hp] at hj
    obtain ⟨x, hx, rfl⟩ := List.mem_map.1 hj
    obtain ⟨g, hg, rfl, hname⟩ := hgrant x hx
    rw [nameOf_eq hname]
    exact List.mem_map_of_mem hg
  · rw [pageLinks_pieces hcontents, hlines, List.filterMap_map]
    exact congrFun List.filterMap_eq_map _

/-- In one folder no two pages have the same name.  A page gets the name it wants, or the
one with the least free number, and it is reported if and only if it needs a number.  The
lines of the contents for nested types lead to the pages which the same call writes for
them, and they are the links to other pages that stand in the file. -/
theorem links_resolve (ids : List ItemId) (root : ItemId) :
    let taken := fileNames (writeAll p o {} ids).1
    let call := write p o (namesAfter p o {} ids) root
    let pages := call.2.1.filterMap Output.named?
    writeAll p o {} (ids ++ [root]) =
      ((writeAll p o {} ids).1 ++ call.2.1.filterMap Output.written?,
        (writeAll p o {} ids).2 ++ call.2.2) ∧
    (fileNames (writeAll p o {} (ids ++ [root])).1).Nodup ∧
    (∃ gs : List Grant,
      pages = gs.map (fun g => (g.entry.id, g.name)) ∧
      call.2.2 = gs.flatMap Grant.log ++ call.2.1.flatMap Output.log ∧
      ∀ before g after, gs = before ++ g :: after →
        g.entry.Of p ∧ Wants p root pages g.entry.id g.wanted ∧
          Granted (taken ++ before.map Grant.name) g.wanted g.name ∧
          (g.log ≠ [] ↔ g.wanted ∈ taken ++ before.map Grant.name)) ∧
    (o.writeContents = true → o.inlineTypes = false →
      ∃ fileOf : ItemId → String, ∀ id file written, .page id file written ∈ call.2.1 →
        (∀ j ∈ linkedIds p o.kinds id, (j, fileOf j) ∈ pages) ∧
        (∃ lines, written.filterMap Part.contents? = [lines] ∧
          lines.filter ContentsLine.isPage =
            (linkedIds p o.kinds id).map fun j =>
              .page 1 (kindAt p j) (nameAt p j) (fileOf j)) ∧
        (Output.page id file written).written? = some ⟨file, markdown (pieces written)⟩ ∧
        (pieces written).filterMap Piece.pageLink? =
          (linkedIds p o.kinds id).map fun j =>
            (kindAt p j ++ " " ++ nameAt p j, fileOf j)) := by
  intro taken call pages
  refine ⟨writeAll_snoc p o {} ids root, nodup_fileNames hp o _, ?_⟩
  rcases Nat.lt_or_ge root p.items.size with hroot | hroot
  · obtain ⟨e, he, rfl, hof⟩ := exists_entry hroot
    have hused : (namesAfter p o {} ids).used = taken.reverse := by
      rw [used_namesAfter hp, List.append_nil]
    have hpages := named_write hp he hof o (namesAfter p o {} ids)
    have hcall := write_eq he o (namesAfter p o {} ids)
    refine ⟨⟨_, hpages, by simp only [call, hcall], ?_⟩, ?_⟩
    · intro before g after hgs
      have hg : g ∈ callGrants p o (namesAfter p o {} ids) e := hgs ▸ by simp
      have hgranted := granted_of_callGrants o hused hgs
      refine ⟨(within_of_mem_callGrants hp o _ hof hg).1, ?_, hgranted, ?_⟩
      · rw [show pages = _ from hpages]
        exact wants_of_mem_callGrants hp o _ hof hg
      · rw [Grant.log_ne_nil_iff, ne_eq, hgranted.eq_iff, not_not]
    · intro ht hi
      refine ⟨call.1.nameOf, fun id file written hpage => ?_⟩
      rw [show pages = _ from hpages, show call = _ from hcall]
      rw [show call = _ from hcall] at hpage
      obtain ⟨hpaged, hlines, htext⟩ := lines_of_page hp o ht hi _ hof hpage
      exact ⟨hpaged, hlines, (Output.page id file written).written?_eq, htext⟩
  · have hcall := write_outside hroot o (namesAfter p o {} ids)
    refine ⟨⟨[], by simp [pages, call, hcall], by simp [call, hcall], by simp⟩, ?_⟩
    intro _ _
    refine ⟨fun _ => "", ?_⟩
    intro id file written hpage
    simp [call, hcall] at hpage

end Forest

/-- The page of the class when it is written for the second time. -/
def typesPageAnew : WrittenPage :=
  { fileName := "A-2"
    content :=
      "<a id=\"class-a\"></a>\n# A\n\n" ++
      "## Table of Contents\n- [class A](#class-a)\n  - [field f](#field-f)\n" ++
      "  - [class C](A-2-C.md)\n\n" ++
      "a\n\n## Fields\n\n<a id=\"field-f\"></a>\n### field f\n\nf\n\n" }

/-- The second time the class is written, its page and those nested in it are called anew,
and its contents link to the new pages. -/
theorem links_resolve_typesSample :
    typesSample.IsForest ∧
      (fileNames (writeAll typesSample { writeContents := true } {} [0, 0]).1).Nodup ∧
      ∃ (fileOf : ItemId → String) (file : String) (written : List Part),
        .page 0 file written ∈
          (write typesSample { writeContents := true }
            (namesAfter typesSample { writeContents := true } {} [0]) 0).2.1 ∧
        (∀ j ∈ linkedIds typesSample .default 0,
          (j, fileOf j) ∈
            (write typesSample { writeContents := true }
              (namesAfter typesSample { writeContents := true } {} [0])
              0).2.1.filterMap Output.named?) ∧
        (∃ lines, written.filterMap Part.contents? = [lines] ∧
          lines.filter ContentsLine.isPage =
            (linkedIds typesSample .default 0).map fun j =>
              .page 1 (kindAt typesSample j) (nameAt typesSample j) (fileOf j)) ∧
        (pieces written).filterMap Piece.pageLink? =
          (linkedIds typesSample .default 0).map (fun j =>
            (kindAt typesSample j ++ " " ++ nameAt typesSample j, fileOf j)) ∧
        markdown (pieces written) = typesPageAnew.content ∧ file = typesPageAnew.fileName := by
  obtain ⟨_, hnodup, _, hlinks⟩ :=
    links_resolve typesSample_isForest { writeContents := true } [0] 0
  obtain ⟨fileOf, hpages⟩ := hlinks rfl rfl
  obtain ⟨file, written, hpage⟩ := exists_page typesSample_isForest { writeContents := true }
    (namesAfter typesSample { writeContents := true } {} [0])
    (show 0 < typesSample.items.size by decide +kernel) (by decide +kernel)
  obtain ⟨hlinked, hlines, hwritten, htext⟩ := hpages 0 file written hpage
  have hcall : (write typesSample { writeContents := true }
      (namesAfter typesSample { writeContents := true } {} [0]) 0).2.1.filterMap (fun output =>
        (output.named?.filter (·.1 == 0)).bind fun _ => output.written?) = [typesPageAnew] := by
    decide +kernel
  have hmem : ⟨file, markdown (pieces written)⟩ ∈ [typesPageAnew] := by
    rw [← hcall]
    exact List.mem_filterMap.2 ⟨_, hpage, hwritten⟩
  rw [List.mem_singleton] at hmem
  exact ⟨typesSample_isForest, hnodup, fileOf, file, written, hpage, hlinked, hlines, htext,
    congrArg WrittenPage.content hmem, congrArg WrittenPage.fileName hmem⟩

end Page
end DocPages
