/-
Types that are declared in parts.

A part of a type goes into the item that an earlier part made, so that a type has one
item however many files, folders and namespace blocks declare it.  This rests on each
type declaration having one name.  A declaration of two names would make two items at
once, and only the first name is looked up.

A namespace belongs to the package whose file made its first item.  Files of other
packages may add to the namespace, and do not move it.
-/
import DocPages.Proofs.Project.Turns
import Mathlib.Data.List.Nodup

namespace DocPages
namespace Project

/-! ## One item for each type -/

/-- No two containers among these have the same name and kind. -/
def OneOfEach (p : Project) (ids : List ItemId) : Prop :=
  ∀ a ∈ ids, ∀ b ∈ ids, ∀ x y, p.item? a = some x → p.item? b = some y →
    x.container = true → y.container = true → x.name = y.name → x.kind = y.kind → a = b

/-- Each type declaration has one name. -/
def SingleNamed (ds : List Declaration) : Prop :=
  ∀ d ∈ ds, d.kind.isContainer = true → ∃ name, d.names = [name]

theorem exists_namespace {p : Project} {inNamespace : String} {id : ItemId}
    (h : id ∈ p.siblings inNamespace none) :
    ∃ ns ∈ p.namespaces.toList, ns.name = inNamespace ∧ id ∈ ns.items := by
  rw [siblings_none] at h
  cases hfind : p.namespaces.toList.find? (·.name == inNamespace) with
  | none => rw [hfind] at h; cases h
  | some ns =>
      rw [hfind] at h
      exact ⟨ns, List.mem_of_find?_eq_some hfind, by simpa using List.find?_some hfind, h⟩

/-- A sibling is there, and its parent is the one it was found under. -/
theorem IsForest.of_mem_siblings {p : Project} (hp : p.IsForest) {inNamespace : String}
    {owner : Option ItemId} {id : ItemId} (h : id ∈ p.siblings inNamespace owner) :
    id < p.items.size ∧ p.parent? id = owner := by
  cases owner with
  | some owner =>
      have hparent := (hp.member_iff owner id).1 h
      refine ⟨Nat.lt_of_not_le fun hle => ?_, hparent⟩
      rw [parent?_eq_none hle] at hparent
      cases hparent
  | none =>
      obtain ⟨ns, hns, _, hid⟩ := exists_namespace h
      exact (hp.top_iff id).1 (List.mem_flatMap.2 ⟨ns, hns, hid⟩)

theorem IsForest.siblings_name {p : Project} (hp : p.IsForest) {ns : Namespace}
    (h : ns ∈ p.namespaces) : p.siblings ns.name none = ns.items := by
  rw [siblings_none]
  cases hfind : p.namespaces.toList.find? (·.name == ns.name) with
  | none =>
      have := List.find?_eq_none.1 hfind ns (Array.mem_toList_iff.2 h)
      simp at this
  | some found =>
      have hname : found.name = ns.name := by simpa using List.find?_some hfind
      have hfound := List.mem_of_find?_eq_some hfind
      rw [List.inj_on_of_nodup_map hp.names_nodup hfound (Array.mem_toList_iff.2 h) hname]
      rfl

namespace Building

theorem GoesTo.unique {d : Declaration} {opened : List OpenType} {a b : Option ItemId}
    (ha : GoesTo d opened a) (hb : GoesTo d opened b) : a = b := by
  cases ha with
  | top h =>
      cases hb with
      | top => rfl
      | member h' => rw [h] at h'; cases h'
  | member h =>
      cases hb with
      | top h' => rw [h'] at h; cases h
      | member => rfl

section

variable {package : String} {index : Nat} {d : Declaration} {p q : Project}
  {opened opened' : List OpenType}

/-- A container that a turn makes is the only one of its name and kind among its siblings,
and the only item that the turn makes. -/
theorem Turn.new_container (h : Turn package index d p opened q opened')
    (hopen : OpenIn p opened) (hd : d.kind.isContainer = true → ∃ name, d.names = [name])
    {inNamespace : String} {owner : Option ItemId} (howner : GoesTo d opened owner)
    (hname : owner = none → inNamespace = d.inNamespace) {id : ItemId}
    (hid : p.items.size ≤ id) {new : Item} (hnew : q.item? id = some new)
    (hc : new.container = true) :
    id = p.items.size ∧ ∀ other ∈ p.siblings inNamespace owner, ∀ item,
      p.item? other = some item → item.container = true → item.name = new.name →
      item.kind ≠ new.kind := by
  rcases h.item_cases hopen hnew with ⟨item, hitem, _⟩ | hmade
  · have hlt : id < p.items.size := (Array.getElem?_eq_some_iff.1 hitem).1
    exact absurd hid (Nat.not_le_of_lt hlt)
  · obtain ⟨_, _, parent, name, members, hto, hearlier, hnth, rfl⟩ := hmade
    obtain rfl := howner.unique hto
    have hkind : d.kind.isContainer = true := by
      rw [← container_itemFor d name (Comment.normalize d.rawComment)]
      exact hc
    obtain ⟨only, honly⟩ := hd hkind
    have hhere : p.siblings inNamespace owner = p.siblings d.inNamespace owner := by
      cases owner with
      | some owner => rfl
      | none => rw [hname rfl]
    -- One name leaves room for one new item.
    have hlast : id - p.items.size < 1 := by
      have hlt := (List.getElem?_eq_some_iff.1 hnth).1
      have hle := List.length_filter_le (fun name => !isBlankName name) d.names
      rw [honly] at hle
      rw [filledNames, honly] at hlt
      exact Nat.lt_of_lt_of_le hlt hle
    have hfirst : id - p.items.size = 0 := Nat.lt_one_iff.1 hlast
    refine ⟨Nat.le_antisymm (Nat.sub_eq_zero_iff_le.1 hfirst) hid, ?_⟩
    have hname : d.names.head? = some name := by
      have hmem : name ∈ d.names := (List.mem_filter.1 (List.mem_of_getElem? hnth)).1
      rw [honly, List.mem_singleton] at hmem
      rw [honly, hmem]
      rfl
    intro other hother item hitem hcontainer hsame hsameKind
    rw [hhere] at hother
    exact not_exists_of_earlierPart hearlier hkind hname hother hitem
      ⟨hcontainer, hsame, hsameKind⟩

theorem Turn.oneOfEach (h : Turn package index d p opened q opened') (hforest : p.IsForest)
    (hopen : OpenIn p opened) (hd : d.kind.isContainer = true → ∃ name, d.names = [name])
    {inNamespace : String} {owner : Option ItemId}
    (hp : p.OneOfEach (p.siblings inNamespace owner)) :
    q.OneOfEach (q.siblings inNamespace owner) := by
  have hold : ∀ {id new}, id ∈ p.siblings inNamespace owner → q.item? id = some new →
      ∃ item, p.item? id = some item ∧ Carries d item new := by
    intro id new hid hnew
    refine (h.item_cases hopen hnew).resolve_right fun hmade => ?_
    exact Nat.not_le_of_lt (hforest.of_mem_siblings hid).1 hmade.1
  intro a ha b hb x y hx hy hxc hyc hname hkind
  rcases h.siblings_cases hopen ha with ha | ⟨hage, hto, hns⟩
  · obtain ⟨xold, hxold, hxs⟩ := hold ha hx
    rcases h.siblings_cases hopen hb with hb | ⟨hbge, hto, hns⟩
    · obtain ⟨yold, hyold, hys⟩ := hold hb hy
      exact hp a ha b hb xold yold hxold hyold (hxs.container.symm.trans hxc)
        (hys.container.symm.trans hyc) (hxs.name.symm.trans (hname.trans hys.name))
        (hxs.kind.symm.trans (hkind.trans hys.kind))
    · refine absurd (hxs.kind.symm.trans hkind) ?_
      exact (h.new_container hopen hd hto hns hbge hy hyc).2 a ha xold hxold
        (hxs.container.symm.trans hxc) (hxs.name.symm.trans hname)
  · obtain ⟨hasize, hanew⟩ := h.new_container hopen hd hto hns hage hx hxc
    rcases h.siblings_cases hopen hb with hb | ⟨hbge, _, _⟩
    · obtain ⟨yold, hyold, hys⟩ := hold hb hy
      exact absurd (hys.kind.symm.trans hkind.symm)
        (hanew b hb yold hyold (hys.container.symm.trans hyc) (hys.name.symm.trans hname.symm))
    · rw [hasize, (h.new_container hopen hd hto hns hbge hy hyc).1]

end

end Building

theorem oneOfEach_empty (inNamespace : String) (owner : Option ItemId) :
    OneOfEach {} (siblings {} inNamespace owner) := by
  cases owner with
  | none => exact nofun
  | some owner => exact nofun

theorem oneOfEach_foldl {files : List SourceFile}
    (hfiles : ∀ file ∈ files, SingleNamed file.declarations) {p : Project} (hp : p.IsForest)
    (h : ∀ inNamespace owner, p.OneOfEach (p.siblings inNamespace owner))
    (inNamespace : String) (owner : Option ItemId) :
    (files.foldl addSourceFile p).OneOfEach
      ((files.foldl addSourceFile p).siblings inNamespace owner) := by
  refine foldl_keeps
    (I := fun p => ∀ inNamespace owner, p.OneOfEach (p.siblings inNamespace owner))
    (fun file hfile p hp h => ?_) hp h inNamespace owner
  refine addFile_keeps
    (I := fun p _ => ∀ inNamespace owner, p.OneOfEach (p.siblings inNamespace owner))
    (fun d hd index p opened q opened' hp hopen hturn h inNamespace owner => ?_)
    (fun _ _ _ _ h => h) hp h
  exact hturn.oneOfEach hp hopen (hfiles file hfile d hd) (h inNamespace owner)

/-! ## Packages -/

/-- The first file after which the item is there. -/
def madeBy (p : Project) : List SourceFile → ItemId → Option SourceFile
  | [], _ => none
  | file :: rest, id =>
    if id < (p.addSourceFile file).items.size then some file
    else madeBy (p.addSourceFile file) rest id

/-- The namespace has a first item, which came with the package of the namespace. -/
def Headed (cameWith : ItemId → String → Prop) (ns : Namespace) : Prop :=
  ∃ first, ns.items.head? = some first ∧ cameWith first ns.package

section Headed

variable {cameWith : ItemId → String → Prop} {p : Project}

theorem headed_attach (h : ∀ ns ∈ p.namespaces.toList, Headed cameWith ns) {package : String}
    (hnew : cameWith p.items.size package) (inNamespace : String) (parent : Option ItemId)
    (item : Item) :
    ∀ ns ∈ (p.attach package inNamespace parent item).1.namespaces.toList,
      Headed cameWith ns := by
  cases parent with
  | some parent => exact h
  | none =>
      obtain ⟨front, target, back, _, _, hold, hattach⟩ :=
        namespaces_attach_top p package inNamespace item
      rw [hattach]
      intro ns hns
      rcases hold with hold | ⟨hold, rfl, rfl⟩
      · rw [hold] at h
        rcases List.mem_append.1 hns with hfront | hrest
        · exact h ns (List.mem_append_left _ hfront)
        · rcases List.mem_cons.1 hrest with rfl | hback
          -- A namespace that has a first item keeps it.
          · obtain ⟨first, hfirst, hcame⟩ := h target (by simp)
            refine ⟨first, ?_, hcame⟩
            rw [List.head?_append, hfirst]
            rfl
          · exact h ns (List.mem_append_right _ (List.mem_cons_of_mem _ hback))
      · rcases List.mem_append.1 hns with hfront | hrest
        · exact h ns (hold ▸ hfront)
        · rw [List.mem_singleton.1 hrest]
          exact ⟨p.items.size, rfl, hnew⟩

theorem headed_attachAll (h : ∀ ns ∈ p.namespaces.toList, Headed cameWith ns)
    {package : String} (hnew : ∀ id, p.items.size ≤ id → cameWith id package)
    (d : Declaration) (parent : Option ItemId) (markup : String) (names : List String) :
    ∀ ns ∈ (p.attachAll package d parent markup names).namespaces.toList,
      Headed cameWith ns := by
  induction names generalizing p with
  | nil => exact h
  | cons name rest ih =>
      refine ih (headed_attach h (hnew _ (Nat.le_refl _)) _ _ _) fun id hid => ?_
      rw [size_attach] at hid
      exact hnew id (Nat.le_of_succ_le hid)

theorem Building.Turn.size_le {package : String} {index : Nat} {d : Declaration} {q : Project}
    {opened opened' : List OpenType} (h : Building.Turn package index d p opened q opened') :
    p.items.size ≤ q.items.size := by
  cases h with
  | pass => exact Nat.le_refl _
  | drop => exact Nat.le_refl _
  | merge => rw [size_mergePart]
  | make =>
      rw [size_attachAll]
      exact Nat.le_add_right _ _

theorem Building.Turn.headed {package : String} {index : Nat} {d : Declaration} {q : Project}
    {opened opened' : List OpenType} (h : Building.Turn package index d p opened q opened')
    (hp : ∀ ns ∈ p.namespaces.toList, Headed cameWith ns)
    (hnew : ∀ id, p.items.size ≤ id → cameWith id package) :
    ∀ ns ∈ q.namespaces.toList, Headed cameWith ns := by
  cases h with
  | pass => exact hp
  | drop => exact hp
  | merge => exact hp
  | make => exact headed_attachAll hp hnew _ _ _ _

end Headed

/-- A file gives its package to the namespaces that it starts, and changes no other. -/
theorem headed_addSourceFile {p : Project} (hp : p.IsForest) (file : SourceFile)
    {cameWith : ItemId → String → Prop} (h : ∀ ns ∈ p.namespaces.toList, Headed cameWith ns)
    (hnew : ∀ id, p.items.size ≤ id → cameWith id file.package) :
    ∀ ns ∈ (p.addSourceFile file).namespaces.toList, Headed cameWith ns := by
  refine (addFile_keeps (I := fun q _ => p.items.size ≤ q.items.size ∧
    ∀ ns ∈ q.namespaces.toList, Headed cameWith ns) ?_ (fun _ _ _ _ h => h) hp
    ⟨Nat.le_refl _, h⟩).2
  rintro d _ index q opened q' opened' _ _ hturn ⟨hle, hq⟩
  exact ⟨Nat.le_trans hle hturn.size_le,
    hturn.headed hq fun id hid => hnew id (Nat.le_trans hle hid)⟩

theorem IsForest.lt_of_headed {p : Project} (hp : p.IsForest) {ns : Namespace}
    (hns : ns ∈ p.namespaces.toList) {first : ItemId} (h : ns.items.head? = some first) :
    first < p.items.size :=
  ((hp.top_iff first).1 (List.mem_flatMap.2 ⟨ns, hns, List.mem_of_head? h⟩)).1

/-- The same for a list of files, each giving its package to the namespaces whose first
item it made. -/
theorem headed_foldl (files : List SourceFile) {p : Project} (hp : p.IsForest)
    {cameWith : ItemId → String → Prop} (h : ∀ ns ∈ p.namespaces.toList, Headed cameWith ns) :
    ∀ ns ∈ (files.foldl addSourceFile p).namespaces.toList,
      Headed (fun first package => cameWith first package ∨ p.items.size ≤ first ∧
        ∃ file, madeBy p files first = some file ∧ file.package = package) ns := by
  induction files generalizing p cameWith with
  | nil =>
      intro ns hns
      obtain ⟨first, hfirst, hcame⟩ := h ns hns
      exact ⟨first, hfirst, .inl hcame⟩
  | cons file rest ih =>
      have hforest : (p.addSourceFile file).IsForest := hp.addFile _ _ _
      have hsize : p.items.size ≤ (p.addSourceFile file).items.size := by
        rw [addSourceFile, size_addFile]
        exact Nat.le_add_right _ _
      -- What the file starts is there once the file is done.
      have hfile : ∀ ns ∈ (p.addSourceFile file).namespaces.toList,
          Headed (fun first package => first < (p.addSourceFile file).items.size ∧
            (cameWith first package ∨ p.items.size ≤ first ∧ file.package = package)) ns := by
        intro ns hns
        have hkept : ∀ ns ∈ p.namespaces.toList, Headed (fun first package =>
            cameWith first package ∨ p.items.size ≤ first ∧ file.package = package) ns := by
          intro ns hns
          obtain ⟨first, hfirst, hcame⟩ := h ns hns
          exact ⟨first, hfirst, .inl hcame⟩
        obtain ⟨first, hfirst, hcame⟩ :=
          headed_addSourceFile hp file hkept (fun id hid => .inr ⟨hid, rfl⟩) ns hns
        exact ⟨first, hfirst, hforest.lt_of_headed hns hfirst, hcame⟩
      intro ns hns
      obtain ⟨first, hfirst, hcame⟩ := ih hforest hfile ns hns
      refine ⟨first, hfirst, ?_⟩
      rcases hcame with ⟨hlt, hcame | ⟨hge, hpackage⟩⟩ | ⟨hge, made, hmade, hpackage⟩
      · exact .inl hcame
      · exact .inr ⟨hge, file, by rw [madeBy, if_pos hlt], hpackage⟩
      · exact .inr ⟨Nat.le_trans hsize hge, made,
          by rw [madeBy, if_neg (Nat.not_lt_of_le hge), hmade], hpackage⟩

/-- However files and packages follow each other, a type that is declared in parts has one
item, and a namespace has the package of the file that made its first item. -/
theorem oneOfEach_build {files : List SourceFile}
    (h : ∀ file ∈ files, SingleNamed file.declarations) :
    (∀ owner, (build files).OneOfEach ((build files).members owner)) ∧
    ∀ ns ∈ (build files).namespaces, (build files).OneOfEach ns.items ∧
      ∃ first file, ns.items.head? = some first ∧ madeBy {} files first = some file ∧
        ns.package = file.package := by
  have hsiblings := oneOfEach_foldl h empty_isForest oneOfEach_empty
  refine ⟨fun owner => hsiblings "" (some owner), fun ns hns => ⟨?_, ?_⟩⟩
  · rw [← (isForest_build files).siblings_name hns]
    exact hsiblings ns.name none
  · have hnone : ∀ ns ∈ ({} : Project).namespaces.toList, Headed (fun _ _ => False) ns := nofun
    obtain ⟨first, hfirst, hcame⟩ :=
      headed_foldl files empty_isForest hnone ns (Array.mem_toList_iff.2 hns)
    obtain ⟨_, file, hfile, hpackage⟩ := hcame.resolve_left id
    exact ⟨first, file, hfirst, hfile, hpackage.symm⟩

/-- A type in two files of two packages, with a nested type in two parts as well. -/
def halves : List SourceFile :=
  [{ package := "P", path := "A.cs", declarations :=
      [{ names := ["A"], kind := .classType, rawComment := "/// a", inNamespace := "N" },
       { names := ["B"], kind := .structType, rawComment := "/// b", parent := some 0,
         inNamespace := "N" }] },
   { package := "Q", path := "B.cs", declarations :=
      [{ names := ["A"], kind := .classType, inNamespace := "N" },
       { names := ["B"], kind := .structType, rawComment := "/// c", parent := some 0,
         inNamespace := "N" }] }]

theorem singleNamed_halves : ∀ file ∈ halves, SingleNamed file.declarations := by
  intro file hfile d hd _
  simp only [halves, List.mem_cons, List.not_mem_nil, or_false] at hfile
  rcases hfile with rfl | rfl
  all_goals
    simp only [List.mem_cons, List.not_mem_nil, or_false] at hd
    rcases hd with rfl | rfl
    all_goals exact ⟨_, rfl⟩

theorem oneOfEach_build_halves :
    (∀ file ∈ halves, SingleNamed file.declarations) ∧
    (∀ owner, (build halves).OneOfEach ((build halves).members owner)) ∧
    (∀ ns ∈ (build halves).namespaces, (build halves).OneOfEach ns.items ∧
      ∃ first file, ns.items.head? = some first ∧ madeBy {} halves first = some file ∧
        ns.package = file.package) ∧
    (build halves).namespaces =
      #[{ name := "N", package := "P", directory := "N", items := [0] }] ∧
    (build halves).items.map Item.markup = #["a", "b\nc"] :=
  have h := oneOfEach_build singleNamed_halves
  ⟨singleNamed_halves, h.1, h.2, by decide +kernel, by decide +kernel⟩

end Project
end DocPages
