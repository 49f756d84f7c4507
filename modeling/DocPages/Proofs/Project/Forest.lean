/-
A project is a forest, whatever is done to it.

Ownership is kept twice, in the lists of members and in the links to the parents, and
the top of each namespace is a third list.  `Project.IsForest` says that the three
agree: the lists together hold every item once, each link is the list read backwards,
and a link always leads to an earlier item, so that no chain of links comes back to
where it started.  `Reachable` is what any sequence of operations makes of the empty
project, and the theorem this file exists for is `isForest_of_reachable`.

Operations that change no list and no link are handled together through `shape`.
-/
import DocPages.Plugin.KindRules
import DocPages.Proofs.Project.Placement
import Mathlib.Data.List.Range
import Mathlib.Logic.Relation

namespace DocPages
namespace Project

/-! ## The invariant -/

/-- The container of an item, if it has one. -/
def parent? (p : Project) (id : ItemId) : Option ItemId := (p.item? id).bind Item.parent

/-- The entries of all lists that own items: those of the namespaces, then those of the
containers. -/
def owned (p : Project) : List ItemId := p.topLevel ++ p.items.toList.flatMap Item.members

/-- The lists that own items and the links back agree. -/
structure IsForest (p : Project) : Prop where
  names_nodup : (p.namespaces.toList.map Namespace.name).Nodup
  /-- Every item stands in exactly one list, once, and nothing else does. -/
  owned_perm : p.owned.Perm (List.range p.items.size)
  member_iff : ∀ i j, j ∈ p.members i ↔ p.parent? j = some i
  top_iff : ∀ j, j ∈ p.topLevel ↔ j < p.items.size ∧ p.parent? j = none
  parent_lt : ∀ i j, p.parent? j = some i → i < j

theorem empty_isForest : IsForest {} where
  names_nodup := List.nodup_nil
  owned_perm := List.Perm.nil
  member_iff := by
    intro i j
    simp [members, parent?, item?]
  top_iff := by
    intro j
    simp [topLevel]
  parent_lt := by
    intro i j h
    simp [parent?, item?] at h

/-- A chain of links to containers only leads to earlier items. -/
theorem IsForest.lt_of_transGen {p : Project} (h : p.IsForest) {i j : ItemId}
    (hc : Relation.TransGen (fun a b => p.parent? b = some a) i j) : i < j := by
  induction hc with
  | single hab => exact h.parent_lt _ _ hab
  | tail _ hbc ih => exact Nat.lt_trans ih (h.parent_lt _ _ hbc)

/-! ## Operations that keep the shape -/

/-- What a project looks like without the contents of its items. -/
def shape (p : Project) : Array Namespace × Array (List ItemId × Option ItemId) :=
  (p.namespaces, p.items.map fun item => (item.members, item.parent))

theorem item?_shape (p : Project) (id : ItemId) :
    (p.item? id).map (fun item => (item.members, item.parent)) = p.shape.2[id]? := by
  rw [shape, Array.getElem?_map, item?]

theorem members_of_shape {p q : Project} (h : p.shape = q.shape) (id : ItemId) :
    p.members id = q.members id := by
  have hid := item?_shape p id
  rw [h, ← item?_shape q id] at hid
  have := congrArg (fun r => (r.map Prod.fst).getD []) hid
  simpa [members, Option.map_map, Function.comp_def] using this

theorem parent?_of_shape {p q : Project} (h : p.shape = q.shape) (id : ItemId) :
    p.parent? id = q.parent? id := by
  have hid := item?_shape p id
  rw [h, ← item?_shape q id] at hid
  have := congrArg (fun r => r.bind Prod.snd) hid
  simpa [parent?, Option.bind_map, Function.comp_def] using this

theorem size_of_shape {p q : Project} (h : p.shape = q.shape) : p.items.size = q.items.size := by
  have := congrArg (fun s => s.2.size) h
  simpa [shape] using this

theorem owned_of_shape {p q : Project} (h : p.shape = q.shape) : p.owned = q.owned := by
  have hns : p.namespaces = q.namespaces := congrArg Prod.fst h
  have hms : p.items.toList.map Item.members = q.items.toList.map Item.members := by
    have := congrArg (fun s => s.2.toList.map Prod.fst) h
    simpa [shape, Function.comp_def] using this
  rw [owned, owned, topLevel, topLevel, hns, List.flatMap_def (l := p.items.toList), hms,
    ← List.flatMap_def]

theorem IsForest.of_shape {p q : Project} (hq : q.IsForest) (h : p.shape = q.shape) :
    p.IsForest := by
  have hns : p.namespaces = q.namespaces := congrArg Prod.fst h
  refine ⟨?_, ?_, ?_, ?_, ?_⟩
  · rw [hns]
    exact hq.names_nodup
  · rw [owned_of_shape h, size_of_shape h]
    exact hq.owned_perm
  · intro i j
    rw [members_of_shape h, parent?_of_shape h]
    exact hq.member_iff i j
  · intro j
    rw [topLevel, hns, size_of_shape h, parent?_of_shape h]
    exact hq.top_iff j
  · intro i j
    rw [parent?_of_shape h]
    exact hq.parent_lt i j

/-- Changing one item keeps the shape if it leaves the members and the parent alone. -/
theorem shape_modify (p : Project) (id : ItemId) (f : Item → Item)
    (hm : ∀ item, (f item).members = item.members) (hp : ∀ item, (f item).parent = item.parent) :
    shape { p with items := p.items.modify id f } = p.shape := by
  rw [shape, shape]
  congr 1
  apply Array.ext_getElem?
  intro i
  rw [Array.getElem?_map, Array.getElem?_map, Array.getElem?_modify]
  by_cases hi : id = i
  · rw [if_pos hi, Option.map_map]
    congr 1
    funext item
    simp only [Function.comp_apply, hm, hp]
  · rw [if_neg hi]

theorem shape_setKind (p : Project) (id : ItemId) (kind : String) :
    (p.setKind id kind).shape = p.shape :=
  shape_modify p id _ (fun _ => rfl) (fun _ => rfl)

theorem shape_mergePart (p : Project) (id : ItemId) (part : Item) :
    (p.mergePart id part).shape = p.shape :=
  shape_modify p id _ (fun _ => rfl) (fun _ => rfl)

/-! ## Other kinds -/

/-- Gives items other kinds, one after the other. -/
def setKinds (p : Project) (kinds : List (ItemId × String)) : Project :=
  kinds.foldl (fun p change => p.setKind change.1 change.2) p

theorem setKinds_append (p : Project) (kinds more : List (ItemId × String)) :
    p.setKinds (kinds ++ more) = (p.setKinds kinds).setKinds more := List.foldl_append

theorem shape_setKinds (p : Project) (kinds : List (ItemId × String)) :
    (p.setKinds kinds).shape = p.shape := by
  induction kinds generalizing p with
  | nil => rfl
  | cons change rest ih => exact (ih _).trans (shape_setKind p _ _)

theorem item_of_setKinds {p : Project} {kinds : List (ItemId × String)} {id : ItemId} {new : Item}
    (h : (p.setKinds kinds).item? id = some new) :
    ∃ item kind, p.item? id = some item ∧ new = { item with kind } := by
  induction kinds generalizing p with
  | nil => exact ⟨new, new.kind, h, rfl⟩
  | cons change rest ih =>
      obtain ⟨item, kind, hitem, rfl⟩ := ih h
      unfold setKind item? at hitem
      rw [Array.getElem?_modify] at hitem
      split at hitem
      · obtain ⟨old, hold, rfl⟩ := Option.map_eq_some_iff.1 hitem
        exact ⟨old, kind, hold, rfl⟩
      · exact ⟨item, kind, hitem, rfl⟩

theorem exists_setKinds_reclassify (rules : List KindRule) (p : Project) (id : ItemId) :
    ∃ kinds, (KindRules.reclassify rules p id).1 = p.setKinds kinds := by
  unfold KindRules.reclassify
  split
  · exact ⟨[], rfl⟩
  · rename_i r _
    exact ⟨[(id, r.newKind)], rfl⟩

theorem exists_setKinds_reclassifyAll (rules : List KindRule) (p : Project) (ids : List ItemId) :
    ∃ kinds, (KindRules.reclassifyAll rules p ids).1 = p.setKinds kinds := by
  induction ids generalizing p with
  | nil => exact ⟨[], rfl⟩
  | cons id rest ih =>
      obtain ⟨kinds, hfirst⟩ := exists_setKinds_reclassify rules p id
      obtain ⟨more, hrest⟩ := ih (KindRules.reclassify rules p id).1
      refine ⟨kinds ++ more, ?_⟩
      rw [setKinds_append, ← hfirst, ← hrest]
      rfl

/-- All that the plugin does to a project is to give items other kinds. -/
theorem exists_setKinds_generate (plugin : KindRules) (p : Project) :
    ∃ kinds, (plugin.generate p).project = p.setKinds kinds := by
  unfold KindRules.generate
  split
  · exact ⟨[], rfl⟩
  · exact exists_setKinds_reclassifyAll plugin.rules p _

theorem shape_reclassify (rules : List KindRule) (p : Project) (id : ItemId) :
    (KindRules.reclassify rules p id).1.shape = p.shape := by
  obtain ⟨kinds, h⟩ := exists_setKinds_reclassify rules p id
  rw [h, shape_setKinds]

theorem shape_reclassifyAll (rules : List KindRule) (p : Project) (ids : List ItemId) :
    (KindRules.reclassifyAll rules p ids).1.shape = p.shape := by
  obtain ⟨kinds, h⟩ := exists_setKinds_reclassifyAll rules p ids
  rw [h, shape_setKinds]

theorem shape_generate (plugin : KindRules) (p : Project) :
    (plugin.generate p).project.shape = p.shape := by
  obtain ⟨kinds, h⟩ := exists_setKinds_generate plugin p
  rw [h, shape_setKinds]

/-! ## Operations that add an item -/

theorem members_eq_nil {p : Project} {id : ItemId} (h : p.items.size ≤ id) :
    p.members id = [] := by
  rw [members, item?, Array.getElem?_eq_none h]
  rfl

theorem parent?_eq_none {p : Project} {id : ItemId} (h : p.items.size ≤ id) :
    p.parent? id = none := by
  rw [parent?, item?, Array.getElem?_eq_none h]
  rfl

theorem members_push (p : Project) (item : Item) (parent : Option ItemId) (id : ItemId) :
    (p.push item parent).1.members id = p.members id := by
  by_cases h : id = p.items.size
  · rw [members_eq_nil (Nat.le_of_eq h.symm)]
    simp [members, item?, push, h]
  · simp [members, item?, push, Array.getElem?_push, h]

theorem parent?_push (p : Project) (item : Item) (parent : Option ItemId) (id : ItemId) :
    (p.push item parent).1.parent? id =
      if id = p.items.size then parent else p.parent? id := by
  by_cases h : id = p.items.size
  · simp [parent?, item?, push, h]
  · simp [parent?, item?, push, Array.getElem?_push, h]

theorem item?_addMember (p : Project) (parent : ItemId) (item : Item) (id : ItemId) :
    (p.addMember parent item).1.item? id =
      if parent = id then
        ((p.push item (some parent)).1.item? id).map fun owner =>
          { owner with members := owner.members ++ [p.items.size] }
      else (p.push item (some parent)).1.item? id :=
  Array.getElem?_modify

theorem item?_push_of_lt {p : Project} {id : ItemId} (item : Item) (parent : Option ItemId)
    (h : id < p.items.size) : (p.push item parent).1.item? id = some p.items[id] :=
  Array.getElem?_push_lt h

theorem members_addMember {p : Project} {parent : ItemId} (item : Item)
    (h : parent < p.items.size) (id : ItemId) :
    (p.addMember parent item).1.members id =
      if id = parent then p.members id ++ [p.items.size] else p.members id := by
  rw [← members_push p item (some parent) id, members, item?_addMember, members]
  by_cases hid : id = parent
  · subst hid
    rw [if_pos rfl, if_pos rfl, item?_push_of_lt item _ h]
    rfl
  · rw [if_neg hid, if_neg (Ne.symm hid)]

theorem parent?_addMember (p : Project) (parent : ItemId) (item : Item) (id : ItemId) :
    (p.addMember parent item).1.parent? id =
      if id = p.items.size then some parent else p.parent? id := by
  rw [← parent?_push p item (some parent) id, parent?, item?_addMember, parent?]
  by_cases hid : parent = id
  · rw [if_pos hid, Option.bind_map]
    rfl
  · rw [if_neg hid]

/-- Appending `b` to one of the lists appends it to all of them together, up to order. -/
theorem flatMap_modify_perm {α β : Type} {g : α → List β} {f : α → α} {b : β}
    (hf : ∀ a, g (f a) = g a ++ [b]) {l : List α} {i : Nat} (hi : i < l.length) :
    ((l.modify i f).flatMap g).Perm (b :: l.flatMap g) := by
  induction l generalizing i with
  | nil => exact absurd hi (Nat.not_lt_zero i)
  | cons a rest ih =>
      cases i with
      | zero =>
          rw [List.modify_zero_cons, List.flatMap_cons, List.flatMap_cons, hf, List.append_assoc,
            List.singleton_append]
          exact List.perm_middle
      | succ i =>
          rw [List.modify_succ_cons, List.flatMap_cons, List.flatMap_cons]
          exact ((ih (Nat.lt_of_succ_lt_succ hi)).append_left (g a)).trans List.perm_middle

theorem owned_addMember {p : Project} {parent : ItemId} (item : Item)
    (h : parent < p.items.size) :
    (p.addMember parent item).1.owned.Perm (p.items.size :: p.owned) := by
  have hlists : ((p.addMember parent item).1.items.toList.flatMap Item.members).Perm
      (p.items.size :: p.items.toList.flatMap Item.members) := by
    have := flatMap_modify_perm (g := Item.members) (b := p.items.size)
      (f := fun owner => { owner with members := owner.members ++ [p.items.size] })
      (fun _ => rfl) (l := (p.push item (some parent)).1.items.toList) (i := parent)
      (by simpa [push] using Nat.lt_succ_of_lt h)
    simpa [addMember, push] using this
  exact (hlists.append_left p.topLevel).trans List.perm_middle

theorem topLevel_addTopLevel {p : Project} {index : Nat} (item : Item)
    (h : index < p.namespaces.size) :
    (p.addTopLevel index item).1.topLevel.Perm (p.items.size :: p.topLevel) := by
  have := flatMap_modify_perm (g := Namespace.items) (b := p.items.size)
    (f := fun ns => { ns with items := ns.items ++ [p.items.size] })
    (fun _ => rfl) (l := p.namespaces.toList) (i := index) (by simpa using h)
  simpa [addTopLevel, topLevel, push] using this

theorem owned_addTopLevel {p : Project} {index : Nat} (item : Item)
    (h : index < p.namespaces.size) :
    (p.addTopLevel index item).1.owned.Perm (p.items.size :: p.owned) := by
  have hms : (p.addTopLevel index item).1.items.toList.flatMap Item.members =
      p.items.toList.flatMap Item.members := by
    simp [addTopLevel, push]
  rw [owned, hms]
  exact (topLevel_addTopLevel item h).append_right _

/-- The ids up to a new one, once the new one stands in a list. -/
theorem perm_range_succ {l : List ItemId} {n : Nat} {owned : List ItemId}
    (hl : l.Perm (n :: owned)) (h : owned.Perm (List.range n)) : l.Perm (List.range (n + 1)) := by
  rw [List.range_succ]
  exact (hl.trans (h.cons n)).trans (List.perm_append_singleton n _).symm

theorem IsForest.addMember {p : Project} (hp : p.IsForest) {parent : ItemId} (item : Item)
    (h : parent < p.items.size) : (p.addMember parent item).1.IsForest := by
  have hsize := size_addMember p parent item
  have htop : (p.addMember parent item).1.topLevel = p.topLevel := rfl
  refine ⟨hp.names_nodup, ?_, ?_, ?_, ?_⟩
  · rw [hsize]
    exact perm_range_succ (owned_addMember item h) hp.owned_perm
  · intro i j
    rw [members_addMember item h, parent?_addMember]
    have hnew : p.items.size ∉ p.members i := by
      rw [hp.member_iff, parent?_eq_none (Nat.le_refl _)]
      exact nofun
    by_cases hj : j = p.items.size
    · subst hj
      rw [if_pos rfl, Option.some.injEq]
      by_cases hi : i = parent
      · simp [hi]
      · simp only [if_neg hi, hnew, false_iff]
        exact Ne.symm hi
    · rw [if_neg hj, ← hp.member_iff]
      by_cases hi : i = parent
      · simp [hi, hj]
      · rw [if_neg hi]
  · intro j
    rw [htop, hp.top_iff, hsize, parent?_addMember]
    by_cases hj : j = p.items.size
    · simp [hj]
    · rw [if_neg hj, Nat.lt_succ_iff_lt_or_eq, or_iff_left hj]
  · intro i j
    rw [parent?_addMember]
    by_cases hj : j = p.items.size
    · rw [if_pos hj, Option.some.injEq, hj]
      rintro rfl
      exact h
    · rw [if_neg hj]
      exact hp.parent_lt i j

theorem names_modify_items (l : List Namespace) (index : Nat) (id : ItemId) :
    (l.modify index fun ns => { ns with items := ns.items ++ [id] }).map Namespace.name =
      l.map Namespace.name := by
  induction l generalizing index with
  | nil => cases index <;> rfl
  | cons ns rest ih =>
      cases index with
      | zero => rfl
      | succ index => rw [List.modify_succ_cons, List.map_cons, List.map_cons, ih]

theorem IsForest.addTopLevel {p : Project} (hp : p.IsForest) {index : Nat} (item : Item)
    (h : index < p.namespaces.size) : (p.addTopLevel index item).1.IsForest := by
  have hsize := size_addTopLevel p index item
  have hmembers : ∀ i, (p.addTopLevel index item).1.members i = p.members i :=
    members_push p item none
  have hparent : ∀ j, (p.addTopLevel index item).1.parent? j = p.parent? j := by
    intro j
    refine (parent?_push p item none j).trans ?_
    by_cases hj : j = p.items.size
    · rw [if_pos hj, parent?_eq_none (Nat.le_of_eq hj.symm)]
    · rw [if_neg hj]
  have htop : ∀ j, j ∈ (p.addTopLevel index item).1.topLevel ↔
      j = p.items.size ∨ j ∈ p.topLevel := by
    intro j
    rw [(topLevel_addTopLevel item h).mem_iff, List.mem_cons]
  refine ⟨?_, ?_, ?_, ?_, ?_⟩
  · have := names_modify_items p.namespaces.toList index p.items.size
    simpa [Project.addTopLevel, push, this] using hp.names_nodup
  · rw [hsize]
    exact perm_range_succ (owned_addTopLevel item h) hp.owned_perm
  · intro i j
    rw [hmembers, hparent]
    exact hp.member_iff i j
  · intro j
    rw [htop, hp.top_iff, hsize, hparent]
    by_cases hj : j = p.items.size
    · simp [hj, parent?_eq_none]
    · rw [Nat.lt_succ_iff_lt_or_eq, or_iff_left hj, or_iff_right hj]
  · intro i j
    rw [hparent]
    exact hp.parent_lt i j

/-! ## Namespaces -/

theorem IsForest.namespaceIndex {p : Project} (hp : p.IsForest) (name package : String) :
    (p.namespaceIndex name package).1.IsForest := by
  unfold Project.namespaceIndex
  split
  · exact hp
  · rename_i hnone
    have htop : topLevel
        { p with namespaces := p.namespaces.push { name, package, directory := name } } =
          p.topLevel := by
      simp [topLevel]
    refine ⟨?_, ?_, hp.member_iff, ?_, hp.parent_lt⟩
    · have hnew : ∀ ns ∈ p.namespaces, ns.name ≠ name := by
        intro ns hns
        simpa using Array.findIdx?_eq_none_iff.1 hnone ns hns
      simpa [List.nodup_append, hp.names_nodup] using hnew
    · rw [owned, htop]
      exact hp.owned_perm
    · intro j
      rw [htop]
      exact hp.top_iff j

/-! ## Building a file -/

theorem IsForest.attach {p : Project} (hp : p.IsForest) (package inNamespace : String)
    {parent : Option ItemId} (h : ∀ id, parent = some id → id < p.items.size) (item : Item) :
    (p.attach package inNamespace parent item).1.IsForest := by
  cases parent with
  | none =>
      exact (hp.namespaceIndex inNamespace package).addTopLevel item (namespaceIndex_lt p _ _)
  | some parent => exact hp.addMember item (h parent rfl)

theorem IsForest.attachAll {p : Project} (hp : p.IsForest) (package : String) (d : Declaration)
    {parent : Option ItemId} (h : ∀ id, parent = some id → id < p.items.size) (markup : String)
    (names : List String) : (p.attachAll package d parent markup names).IsForest := by
  induction names generalizing p with
  | nil => exact hp
  | cons name rest ih =>
      refine ih (hp.attach package d.inNamespace h (itemFor d name markup)) ?_
      intro id hid
      rw [size_attach]
      exact Nat.lt_succ_of_lt (h id hid)

theorem lt_of_findContainer {p : Project} {inNamespace name kind : String}
    {parent : Option ItemId} {id : ItemId}
    (h : p.findContainer inNamespace parent name kind = some id) : id < p.items.size := by
  have hfits := List.find?_some h
  rw [Option.any_eq_true] at hfits
  obtain ⟨item, hitem, _⟩ := hfits
  exact (Array.getElem?_eq_some_iff.1 hitem).1

theorem lt_of_earlierPart {p : Project} {d : Declaration} {parent : Option ItemId} {id : ItemId}
    (h : p.earlierPart d parent = some id) : id < p.items.size := by
  unfold earlierPart at h
  split at h
  · obtain ⟨name, _, hfind⟩ := Option.bind_eq_some_iff.1 h
    exact lt_of_findContainer hfind
  · cases h

namespace Building

/-- The project is a forest, and every type that is open and was not dropped is one of its
items. -/
structure Sound (b : Building) : Prop where
  isForest : b.project.IsForest
  open_lt : ∀ top ∈ b.stack, ∀ id, top.2 = some id → id < b.project.items.size

theorem Sound.enter {b : Building} (hb : b.Sound) (index : Nat) (d : Declaration)
    {item : Option ItemId} (h : ∀ id, item = some id → id < b.project.items.size) :
    (b.enter index d item).Sound := by
  unfold Building.enter
  split
  · refine ⟨hb.isForest, ?_⟩
    intro top htop
    rcases List.mem_cons.1 htop with rfl | hold
    · exact h
    · exact hb.open_lt top hold
  · exact hb

theorem Sound.place {b : Building} (hb : b.Sound) (package path : String) (index : Nat)
    (d : Declaration) {parent : Option ItemId}
    (h : ∀ id, parent = some id → id < b.project.items.size) :
    (b.place package path index d parent).Sound := by
  rw [place_eq]
  split
  · rename_i id hid
    refine ⟨hb.isForest.of_shape (shape_mergePart _ _ _), ?_⟩
    intro top htop
    rw [size_mergePart]
    rcases List.mem_cons.1 htop with rfl | hold
    · rintro _ ⟨⟩
      exact lt_of_earlierPart hid
    · exact hb.open_lt top hold
  · split
    · exact hb.enter index d nofun
    · have hsize := size_attachAll b.project package d parent (Comment.normalize d.rawComment)
        (filledNames d.names)
      refine Sound.enter ⟨hb.isForest.attachAll package d h _ _, ?_⟩ index d ?_
      · intro top htop id hid
        simp only [hsize]
        exact Nat.lt_of_lt_of_le (hb.open_lt top htop id hid) (Nat.le_add_right _ _)
      · intro id hid
        simp only [hsize]
        cases hn : filledNames d.names with
        | nil => simp [hn] at hid
        | cons name rest =>
            simp only [hn, List.head?_cons, Option.map_some, Option.some.injEq] at hid
            rw [← hid]
            exact Nat.lt_add_of_pos_right (Nat.succ_pos _)

theorem Sound.step {b : Building} (hb : b.Sound) (package path : String) (index : Nat)
    (d : Declaration) : (b.step package path index d).Sound := by
  have hpopped : Sound { b with stack := b.stack.dropWhile fun top => some top.1 != d.parent } :=
    ⟨hb.isForest, fun top htop => hb.open_lt top ((List.dropWhile_suffix _).mem htop)⟩
  unfold Building.step
  simp only
  split
  · exact hpopped.place package path index d nofun
  · rename_i item rest hstack
    refine hpopped.place package path index d ?_
    rintro _ ⟨⟩
    exact hpopped.open_lt _ (by rw [hstack]; exact List.mem_cons_self) _ rfl
  · exact hpopped.enter index d nofun
  · exact ⟨hpopped.isForest, hpopped.open_lt⟩

theorem Sound.steps {b : Building} (hb : b.Sound) (package path : String) (index : Nat)
    (ds : List Declaration) : (b.steps package path index ds).Sound := by
  induction ds generalizing b index with
  | nil => exact hb
  | cons d rest ih => exact ih (hb.step package path index d) (index + 1)

end Building

theorem IsForest.addFile {p : Project} (hp : p.IsForest) (package path : String)
    (ds : List Declaration) : (p.addFile package path ds).1.IsForest := by
  have hstart : Building.Sound { project := p } := ⟨hp, nofun⟩
  exact (hstart.steps package path 0 ds).isForest

/-! ## Sequences of operations -/

/-- What can be done to a project. -/
inductive Operation where
  | namespaceIndex (name package : String)
  | addTopLevel (index : Nat) (item : Item)
  | addMember (parent : ItemId) (item : Item)
  | mergePart (id : ItemId) (part : Item)
  | setKind (id : ItemId) (kind : String)
  | addFile (package path : String) (declarations : List Declaration)
  | generate (plugin : KindRules)

namespace Operation

/-- An item is added to a namespace or to a container that exists. -/
def Fits (p : Project) : Operation → Prop
  | addTopLevel index _ => index < p.namespaces.size
  | addMember parent _ => parent < p.items.size
  | _ => True

def run (p : Project) : Operation → Project
  | namespaceIndex name package => (p.namespaceIndex name package).1
  | addTopLevel index item => (p.addTopLevel index item).1
  | addMember parent item => (p.addMember parent item).1
  | mergePart id part => p.mergePart id part
  | setKind id kind => p.setKind id kind
  | addFile package path declarations => (p.addFile package path declarations).1
  | generate plugin => (plugin.generate p).project

end Operation

/-- The projects that some sequence of operations makes of the empty one. -/
inductive Reachable : Project → Prop where
  | empty : Reachable {}
  | step {p : Project} (op : Operation) (h : Reachable p) (hop : op.Fits p) : Reachable (op.run p)

theorem IsForest.run {p : Project} (hp : p.IsForest) (op : Operation) (hop : op.Fits p) :
    (op.run p).IsForest := by
  cases op with
  | namespaceIndex name package => exact hp.namespaceIndex name package
  | addTopLevel index item => exact hp.addTopLevel item hop
  | addMember parent item => exact hp.addMember item hop
  | mergePart id part => exact hp.of_shape (shape_mergePart p id part)
  | setKind id kind => exact hp.of_shape (shape_setKind p id kind)
  | addFile package path ds => exact hp.addFile package path ds
  | generate plugin => exact hp.of_shape (shape_generate plugin p)

theorem Reachable.isForest {p : Project} (h : Reachable p) : p.IsForest := by
  induction h with
  | empty => exact empty_isForest
  | step op _ hop ih => exact ih.run op hop

/-- Every project is a forest, and no item is among its own containers. -/
theorem isForest_of_reachable {p : Project} (h : Reachable p) :
    p.IsForest ∧
      ∀ id, ¬ Relation.TransGen (fun owner member => p.parent? member = some owner) id id := by
  refine ⟨h.isForest, ?_⟩
  intro id hcycle
  exact Nat.lt_irrefl id (h.isForest.lt_of_transGen hcycle)

/-- A type and its field from a file, another part of the type from a second one, and then
a member and another kind for it. -/
def sample : Project :=
  (Operation.generate { rules := [⟨"field", "Output", "output-field"⟩] }).run <|
    (Operation.addMember 0
      { Item.new "Extra" "field" "e" with attributes := [⟨"Output", []⟩] }).run <|
    (Operation.addFile "P" "B" [{ names := ["A"], kind := .classType, inNamespace := "N" }]).run <|
    (Operation.addFile "P" "A"
      [{ names := ["A"], kind := .classType, rawComment := "/// a", inNamespace := "N" },
       { names := ["x", "", "y"], kind := .field, rawComment := "/// x", parent := some 0,
         inNamespace := "N" }]).run {}

theorem isForest_of_reachable_sample :
    Reachable sample ∧ sample.items.size = 4 ∧ sample.IsForest ∧
      ∀ id, ¬ Relation.TransGen (fun owner member => sample.parent? member = some owner) id id := by
  have h : Reachable sample := by
    refine .step _ (.step _ (.step _ (.step _ .empty trivial) trivial) ?_) trivial
    show 0 < _
    decide +kernel
  exact ⟨h, by decide +kernel, isForest_of_reachable h⟩

end Project
end DocPages
