/-
The outline of an item in a project that is a forest.

An outline keeps the members that stand behind their container in the project.  In a
forest these are all of them, so the outline of an item holds what can be reached from it
over the lists of members.  `Met` says what that is without outlines.  The theorems this
file exists for are `mem_met` and `nodup_met`: the entries that writing an outline comes
to are those of the items met, each once.
-/
import DocPages.Page.Outline
import DocPages.Proofs.Project.Forest
import Mathlib.Data.List.Nodup

namespace DocPages
namespace Project

/-! ## Chains of containers -/

/-- An item is another one or is inside it, at whatever depth. -/
def Within (p : Project) : ItemId → ItemId → Prop :=
  Relation.ReflTransGen fun inner outer => p.parent? inner = some outer

namespace IsForest

variable {p : Project} (hp : p.IsForest)

include hp

theorem le_of_within {i j : ItemId} (h : p.Within j i) : i ≤ j := by
  induction h with
  | refl => exact Nat.le_refl _
  | tail _ hstep ih => exact Nat.le_trans (Nat.le_of_lt (hp.parent_lt _ _ hstep)) ih

/-- No item is inside two members of one container, since its chain of containers passes
through only one of them. -/
theorem eq_of_within {i a b j : ItemId} (ha : p.parent? a = some i) (hb : p.parent? b = some i)
    (hja : p.Within j a) (hjb : p.Within j b) : a = b := by
  have hunique : Relator.RightUnique fun inner outer => p.parent? inner = some outer := by
    intro x y z hy hz
    exact Option.some.inj (hy.symm.trans hz)
  -- One of the two is inside the other, and then it is inside their common container.
  have key : ∀ {a b : ItemId}, p.parent? a = some i → p.parent? b = some i → p.Within a b →
      a = b := by
    intro a b ha hb hab
    rcases Relation.ReflTransGen.cases_head_iff.1 hab with rfl | ⟨c, hc, hcb⟩
    · rfl
    · rw [ha, Option.some.injEq] at hc
      subst hc
      exact absurd (hp.le_of_within hcb) (Nat.not_le_of_lt (hp.parent_lt _ _ hb))
  rcases Relation.ReflTransGen.total_of_right_unique hunique hja hjb with hab | hba
  · exact key ha hb hab
  · exact (key hb ha hba).symm

theorem members_nodup (i : ItemId) : (p.members i).Nodup := by
  have howned : (p.items.toList.flatMap Item.members).Nodup := by
    exact List.Nodup.of_append_right (hp.owned_perm.nodup_iff.2 List.nodup_range)
  cases hi : p.item? i with
  | none => simp [members, hi]
  | some item =>
      have hmem : item ∈ p.items.toList := by
        rw [item?] at hi
        exact Array.mem_toList_iff.2 (Array.mem_of_getElem? hi)
      have hnodup := (List.nodup_flatMap.1 howned).1 item hmem
      simpa [members, hi] using hnodup

theorem lt_of_mem_members {i j : ItemId} (h : j ∈ p.members i) : i < j :=
  hp.parent_lt i j ((hp.member_iff i j).1 h)

end IsForest
end Project

namespace Page

open Text

/-! ## What can be reached -/

/-- There is nothing to show of an item whose name or documentation is only white
space. -/
def isBlankAt (p : Project) (id : ItemId) : Bool :=
  (p.item? id).any fun item => allBlank item.name.toList || allBlank item.markup.toList

def isContainerAt (p : Project) (id : ItemId) : Bool := (p.item? id).any Item.container

/-- A container that is shown, with its members, where another item is. -/
structure Nests (p : Project) (outer inner : ItemId) : Prop where
  member : inner ∈ p.members outer
  container : isContainerAt p inner = true
  filled : isBlankAt p inner = false

/-- The items that are shown with their members: the root, and what nests in one of
them. -/
def Opened (p : Project) (root id : ItemId) : Prop :=
  isBlankAt p root = false ∧ Relation.ReflTransGen (Nests p) root id

/-- Writing comes to the root and to every member of an item that is shown with its
members. -/
def Met (p : Project) (root id : ItemId) : Prop :=
  id = root ∨ ∃ owner, Opened p root owner ∧ id ∈ p.members owner

theorem opened_iff {p : Project} {root id : ItemId} :
    Opened p root id ↔
      isBlankAt p root = false ∧ (id = root ∨ ∃ inner, Nests p root inner ∧ Opened p inner id) := by
  refine and_congr_right fun _ => ?_
  rw [Relation.ReflTransGen.cases_head_iff, eq_comm]
  refine or_congr_right (exists_congr fun inner => ?_)
  exact and_congr_right fun h => (and_iff_right h.filled).symm

theorem met_iff {p : Project} {root id : ItemId} :
    Met p root id ↔ id = root ∨ isBlankAt p root = false ∧
      ∃ m ∈ p.members root, id = m ∨ isContainerAt p m = true ∧ Met p m id := by
  constructor
  · rintro (rfl | ⟨owner, howner, hid⟩)
    · exact .inl rfl
    · obtain ⟨hroot, rfl | ⟨inner, hinner, hopen⟩⟩ := opened_iff.1 howner
      · exact .inr ⟨hroot, id, hid, .inl rfl⟩
      · exact .inr ⟨hroot, inner, hinner.member, .inr ⟨hinner.container, .inr ⟨owner, hopen, hid⟩⟩⟩
  · rintro (rfl | ⟨hroot, m, hm, rfl | ⟨hc, hmet⟩⟩)
    · exact .inl rfl
    · exact .inr ⟨root, ⟨hroot, .refl⟩, hm⟩
    · rcases hmet with rfl | ⟨owner, howner, hid⟩
      · exact .inr ⟨root, ⟨hroot, .refl⟩, hm⟩
      · have hnests : Nests p root m := ⟨hm, hc, howner.1⟩
        exact .inr ⟨owner, opened_iff.2 ⟨hroot, .inr ⟨m, hnests, howner⟩⟩, hid⟩

theorem within_of_opened {p : Project} (hp : p.IsForest) {root id : ItemId}
    (h : Opened p root id) : p.Within id root := by
  obtain ⟨_, hchain⟩ := h
  induction hchain with
  | refl => exact .refl
  | tail _ hstep ih => exact .head ((hp.member_iff _ _).1 hstep.member) ih

theorem within_of_met {p : Project} (hp : p.IsForest) {root id : ItemId} (h : Met p root id) :
    p.Within id root := by
  rcases h with rfl | ⟨owner, howner, hid⟩
  · exact .refl
  · exact .head ((hp.member_iff _ _).1 hid) (within_of_opened hp howner)

/-! ## Entries -/

theorem isBlank_iff {e : Entry} :
    e.isBlank = (allBlank e.item.name.toList || allBlank e.item.markup.toList) := by
  unfold Entry.isBlank Entry.skip?
  split
  · rename_i h
    simp [h]
  · rename_i h
    split
    · rename_i h'
      simp [h']
    · rename_i h'
      simp [h, h']

theorem isBlank_of_skip {e : Entry} {reason : Skip} (h : e.skip? = some reason) :
    e.isBlank = true := by
  rw [Entry.isBlank, h]
  rfl

theorem isBlank_of_noSkip {e : Entry} (h : e.skip? = none) : e.isBlank = false := by
  rw [Entry.isBlank, h]
  rfl

theorem entryOf?_eq_some {p : Project} {id : ItemId} {e : Entry} :
    entryOf? p id = some e ↔
      id = e.id ∧ p.item? e.id = some e.item ∧ e.fullName = p.fullName e.id := by
  rw [entryOf?, Option.map_eq_some_iff]
  constructor
  · rintro ⟨item, hitem, rfl⟩
    exact ⟨rfl, hitem, rfl⟩
  · rintro ⟨rfl, hitem, hname⟩
    refine ⟨e.item, hitem, ?_⟩
    rw [← hname]

/-- An entry that says what the project says of its item. -/
def Entry.Of (p : Project) (e : Entry) : Prop :=
  p.item? e.id = some e.item ∧ e.fullName = p.fullName e.id

theorem Entry.Of.isBlank {p : Project} {e : Entry} (h : e.Of p) :
    e.isBlank = isBlankAt p e.id := by
  rw [isBlank_iff, isBlankAt, h.1, Option.any_some]

theorem Entry.Of.container {p : Project} {e : Entry} (h : e.Of p) :
    e.item.container = isContainerAt p e.id := by
  rw [isContainerAt, h.1, Option.any_some]

theorem Entry.Of.eq_iff {p : Project} {e : Entry} (he : e.Of p) {m : Entry} :
    m = e ↔ m.Of p ∧ m.id = e.id := by
  constructor
  · rintro rfl
    exact ⟨he, rfl⟩
  · rintro ⟨⟨hitem, hname⟩, hid⟩
    obtain ⟨heitem, hename⟩ := he
    rw [← hid, hitem, Option.some.injEq] at heitem
    cases m
    cases e
    simp_all

theorem mem_memberEntries {p : Project} (hp : p.IsForest) {id : ItemId} {e : Entry} :
    e ∈ memberEntries p id ↔ e.id ∈ p.members id ∧ e.Of p := by
  rw [memberEntries, List.mem_filter, List.mem_filterMap, decide_eq_true_eq]
  constructor
  · rintro ⟨⟨m, hm, he⟩, _⟩
    obtain ⟨rfl, hof⟩ := entryOf?_eq_some.1 he
    exact ⟨hm, hof⟩
  · rintro ⟨hm, hof⟩
    exact ⟨⟨e.id, hm, entryOf?_eq_some.2 ⟨rfl, hof⟩⟩, hp.lt_of_mem_members hm⟩

theorem exists_entry {p : Project} {id : ItemId} (h : id < p.items.size) :
    ∃ e : Entry, entryOf? p id = some e ∧ e.id = id ∧ e.Of p := by
  refine ⟨⟨id, p.items[id], p.fullName id⟩, ?_, rfl, ?_, rfl⟩
  · rw [entryOf?, Project.item?, Array.getElem?_eq_getElem h]
    rfl
  · rw [Project.item?, Array.getElem?_eq_getElem h]

theorem exists_entry_of_mem {p : Project} (hp : p.IsForest) {owner id : ItemId}
    (h : id ∈ p.members owner) : ∃ e : Entry, entryOf? p id = some e ∧ e.id = id ∧ e.Of p := by
  apply exists_entry
  by_contra hge
  have hparent := (hp.member_iff owner id).1 h
  rw [Project.parent?_eq_none (Nat.le_of_not_lt hge)] at hparent
  cases hparent

/-- In a forest no member is left out. -/
theorem ids_memberEntries {p : Project} (hp : p.IsForest) (id : ItemId) :
    (memberEntries p id).map Entry.id = p.members id := by
  have hall : ∀ m ∈ p.members id, ∃ e, entryOf? p m = some e ∧ e.id = m := by
    intro m hm
    obtain ⟨e, he, hid, _⟩ := exists_entry_of_mem hp hm
    exact ⟨e, he, hid⟩
  have hbehind : ∀ m ∈ p.members id, id < m := fun m hm => hp.lt_of_mem_members hm
  rw [memberEntries]
  generalize p.members id = ms at hall hbehind
  induction ms with
  | nil => rfl
  | cons m rest ih =>
      obtain ⟨e, he, rfl⟩ := hall m List.mem_cons_self
      have hlt := hbehind e.id List.mem_cons_self
      rw [List.filterMap_cons_some he, List.filter_cons_of_pos (by simpa using hlt), List.map_cons,
        ih (fun m hm => hall m (List.mem_cons_of_mem _ hm))
          (fun m hm => hbehind m (List.mem_cons_of_mem _ hm))]

/-! ## Outlines -/

def leavesOf (p : Project) (kinds : KindTable) (id : ItemId) : List Entry :=
  sortEntries kinds ((memberEntries p id).filter fun m => !m.item.container)

def nestedOf (p : Project) (kinds : KindTable) (id : ItemId) : List Entry :=
  sortEntries kinds ((memberEntries p id).filter fun m => m.item.container)

theorem outline_eq (p : Project) (kinds : KindTable) (e : Entry) :
    outline p kinds e =
      .node e (leavesOf p kinds e.id) ((nestedOf p kinds e.id).map (outline p kinds)) := by
  rw [outline]
  simp only [leavesOf, nestedOf, List.attach_map_val]

theorem entry_outline (p : Project) (kinds : KindTable) (e : Entry) :
    (outline p kinds e).entry = e := by
  rw [outline_eq]
  rfl

/-- What holds of an entry if it holds of the containers among its members holds of
every entry. -/
theorem outline_induction (p : Project) (kinds : KindTable) {motive : Entry → Prop}
    (step : ∀ e, (∀ m ∈ nestedOf p kinds e.id, motive m) → motive e) (e : Entry) : motive e := by
  induction hn : p.items.size - e.id using Nat.strong_induction_on generalizing e with
  | _ n ih =>
      refine step e fun m hm => ih _ ?_ m rfl
      rw [nestedOf, mem_sortEntries, List.mem_filter] at hm
      obtain ⟨hlt, hsize⟩ := of_mem_memberEntries hm.1
      rw [← hn]
      exact Nat.sub_lt_sub_left (Nat.lt_trans hlt hsize) hlt

section Forest

variable {p : Project} (hp : p.IsForest) (kinds : KindTable)

include hp

theorem mem_leavesOf {id : ItemId} {e : Entry} :
    e ∈ leavesOf p kinds id ↔ e.id ∈ p.members id ∧ e.Of p ∧ isContainerAt p e.id = false := by
  rw [leavesOf, mem_sortEntries, List.mem_filter, mem_memberEntries hp, and_assoc,
    Bool.not_eq_true']
  exact and_congr_right fun _ => and_congr_right fun h => by rw [h.container]

theorem mem_nestedOf {id : ItemId} {e : Entry} :
    e ∈ nestedOf p kinds id ↔ e.id ∈ p.members id ∧ e.Of p ∧ isContainerAt p e.id = true := by
  rw [nestedOf, mem_sortEntries, List.mem_filter, mem_memberEntries hp, and_assoc]
  exact and_congr_right fun _ => and_congr_right fun h => by rw [h.container]

/-- Leaves and nested types together are the members. -/
theorem leavesOf_append_nestedOf (id : ItemId) :
    ((leavesOf p kinds id ++ nestedOf p kinds id).map Entry.id).Perm (p.members id) := by
  rw [← ids_memberEntries hp]
  refine List.Perm.map _ (((List.mergeSort_perm _ _).append (List.mergeSort_perm _ _)).trans ?_)
  exact (List.perm_append_comm.trans (List.filter_append_perm _ _))

end Forest

/-! ## The order of nested types -/

def kindAt (p : Project) (id : ItemId) : String := ((p.item? id).map Item.kind).getD ""

def nameAt (p : Project) (id : ItemId) : String := ((p.item? id).map Item.name).getD ""

/-- The containers among the members of an item, in the order in which they are shown. -/
def nestedIds (p : Project) (kinds : KindTable) (id : ItemId) : List ItemId :=
  kinds.sortBy (kindAt p) (nameAt p) ((p.members id).filter (isContainerAt p))

theorem Entry.Of.kind {p : Project} {e : Entry} (h : e.Of p) : e.item.kind = kindAt p e.id := by
  rw [kindAt, h.1]
  rfl

theorem Entry.Of.name {p : Project} {e : Entry} (h : e.Of p) : e.item.name = nameAt p e.id := by
  rw [nameAt, h.1]
  rfl

/-- Sorting looks at kinds and names only. -/
theorem map_sortBy {α β : Type} (kinds : KindTable) {kind name : α → String}
    (kind' name' : β → String) {f : α → β} {items : List α}
    (hk : ∀ a ∈ items, kind a = kind' (f a)) (hn : ∀ a ∈ items, name a = name' (f a)) :
    (kinds.sortBy kind name items).map f = kinds.sortBy kind' name' (items.map f) := by
  have hkinds : items.map kind = (items.map f).map kind' := by
    rw [List.map_map]
    exact List.map_congr_left hk
  unfold KindTable.sortBy
  simp only [← hkinds]
  apply List.map_mergeSort
  intro a ha b hb
  rw [hk a ha, hk b hb, hn a ha, hn b hb]

theorem ids_nestedOf {p : Project} (hp : p.IsForest) (kinds : KindTable) (id : ItemId) :
    (nestedOf p kinds id).map Entry.id = nestedIds p kinds id := by
  have hof : ∀ e ∈ (memberEntries p id).filter fun m => m.item.container, e.Of p := by
    intro e he
    exact ((mem_memberEntries hp).1 (List.mem_filter.1 he).1).2
  have hfilter : (memberEntries p id).filter (fun m => m.item.container) =
      (memberEntries p id).filter (isContainerAt p ∘ Entry.id) := by
    refine List.filter_congr fun e he => ?_
    exact ((mem_memberEntries hp).1 he).2.container
  rw [nestedOf, sortEntries, map_sortBy kinds (kindAt p) (nameAt p) (fun e he => (hof e he).kind)
    (fun e he => (hof e he).name), hfilter, ← List.filter_map, ids_memberEntries hp, nestedIds]

/-! ## The entries of an outline -/

mutual
/-- The entries that writing an outline comes to, in order.  Nothing below an entry that
is skipped is among them. -/
def Outline.met : Outline → List Entry
  | .node e leaves nested => if e.isBlank then [e] else e :: (leaves ++ metEach nested)

def metEach : List Outline → List Entry
  | [] => []
  | first :: rest => first.met ++ metEach rest
end

theorem metEach_eq (outlines : List Outline) : metEach outlines = outlines.flatMap Outline.met := by
  induction outlines with
  | nil => rfl
  | cons first rest ih => rw [metEach, ih, List.flatMap_cons]

/-- The entries that the page of an outline comes to. -/
def Outline.onPage (inline : Bool) : Outline → List Entry
  | .node e leaves nested => e :: (leaves ++ if inline then metEach nested else [])

theorem onPage_true {tree : Outline} (h : tree.entry.isBlank = false) :
    tree.onPage true = tree.met := by
  cases tree with
  | node e leaves nested =>
      have hb : e.isBlank = false := h
      rw [Outline.onPage, Outline.met, hb, if_pos rfl, if_neg Bool.false_ne_true]

theorem onPage_sublist (inline : Bool) {tree : Outline} (h : tree.entry.isBlank = false) :
    (tree.onPage inline).Sublist tree.met := by
  rw [← onPage_true h]
  cases tree with
  | node e leaves nested =>
      cases inline with
      | true => exact List.Sublist.refl _
      | false => exact ((List.Sublist.refl leaves).append (List.nil_sublist _)).cons_cons e

theorem met_of_blank {tree : Outline} (h : tree.entry.isBlank = true) :
    tree.met = [tree.entry] := by
  cases tree with
  | node e leaves nested =>
      have hb : e.isBlank = true := h
      rw [Outline.met, hb, if_pos rfl, Outline.entry]

mutual
/-- The entries that have a page of their own, in order. -/
def Outline.paged (inline : Bool) : Outline → List Entry
  | .node e _ nested =>
    if e.isBlank then [] else e :: (if inline then [] else pagedEach inline nested)

def pagedEach (inline : Bool) : List Outline → List Entry
  | [] => []
  | first :: rest => first.paged inline ++ pagedEach inline rest
end

theorem pagedEach_eq (inline : Bool) (outlines : List Outline) :
    pagedEach inline outlines = outlines.flatMap (Outline.paged inline) := by
  induction outlines with
  | nil => rfl
  | cons first rest ih => rw [pagedEach, ih, List.flatMap_cons]

mutual
theorem paged_sublist (inline : Bool) (tree : Outline) : (tree.paged inline).Sublist tree.met := by
  match tree with
  | .node e leaves nested =>
    rw [Outline.paged, Outline.met]
    split
    · exact List.nil_sublist _
    · cases inline with
      | true => exact (List.nil_sublist _).cons_cons e
      | false =>
          have hnested := pagedEach_sublist false nested
          exact (hnested.trans (List.sublist_append_right leaves _)).cons_cons e

theorem pagedEach_sublist (inline : Bool) (trees : List Outline) :
    (pagedEach inline trees).Sublist (metEach trees) := by
  match trees with
  | [] => exact List.nil_sublist _
  | first :: rest => exact (paged_sublist inline first).append (pagedEach_sublist inline rest)
end

section Forest

variable {p : Project} (hp : p.IsForest) (kinds : KindTable)

include hp

theorem mem_met {e : Entry} (he : e.Of p) (m : Entry) :
    m ∈ (outline p kinds e).met ↔ m.Of p ∧ Met p e.id m.id := by
  induction e using outline_induction p kinds with
  | step e ih =>
      rw [outline_eq, Outline.met, metEach_eq, met_iff, he.isBlank]
      cases hb : isBlankAt p e.id with
      | true => simp [he.eq_iff]
      | false =>
          simp only [Bool.false_eq_true, if_false, List.mem_cons, List.mem_append,
            List.mem_flatMap, List.mem_map, true_and, he.eq_iff, mem_leavesOf hp]
          constructor
          · rintro (⟨hm, hid⟩ | ⟨hmem, hm, _⟩ | ⟨_, ⟨x, hx, rfl⟩, hmet⟩)
            · exact ⟨hm, .inl hid⟩
            · exact ⟨hm, .inr ⟨m.id, hmem, .inl rfl⟩⟩
            · have hx' := (mem_nestedOf hp kinds).1 hx
              obtain ⟨hm, hmet⟩ := (ih x hx hx'.2.1).1 hmet
              exact ⟨hm, .inr ⟨x.id, hx'.1, .inr ⟨hx'.2.2, hmet⟩⟩⟩
          · rintro ⟨hm, hid | ⟨k, hk, hrest⟩⟩
            · exact .inl ⟨hm, hid⟩
            · -- A container is met as a nested type even when nothing is shown of it.
              have hnested : ∀ x : Entry, x.id ∈ p.members e.id → x.Of p →
                  isContainerAt p x.id = true → Met p x.id m.id →
                  m ∈ (outline p kinds x).met := by
                intro x hx hof hc hmet
                exact (ih x ((mem_nestedOf hp kinds).2 ⟨hx, hof, hc⟩) hof).2 ⟨hm, hmet⟩
              obtain ⟨x, _, rfl, hof⟩ := exists_entry_of_mem hp hk
              cases hc : isContainerAt p x.id with
              | true =>
                  have hmet : Met p x.id m.id := hrest.elim .inl And.right
                  exact .inr (.inr ⟨_, ⟨x, (mem_nestedOf hp kinds).2 ⟨hk, hof, hc⟩, rfl⟩,
                    hnested x hk hof hc hmet⟩)
              | false =>
                  have hid : m.id = x.id := hrest.resolve_right (by simp [hc])
                  exact .inr (.inl ⟨hid ▸ hk, hm, hid ▸ hc⟩)

theorem mem_paged {e : Entry} (he : e.Of p) (m : Entry) :
    m ∈ (outline p kinds e).paged false ↔ m.Of p ∧ Opened p e.id m.id := by
  induction e using outline_induction p kinds with
  | step e ih =>
      rw [outline_eq, Outline.paged, pagedEach_eq, opened_iff, he.isBlank]
      cases hb : isBlankAt p e.id with
      | true => simp
      | false =>
          simp only [Bool.false_eq_true, if_false, List.mem_cons, List.mem_flatMap, List.mem_map,
            true_and, he.eq_iff]
          constructor
          · rintro (⟨hm, hid⟩ | ⟨_, ⟨x, hx, rfl⟩, hopen⟩)
            · exact ⟨hm, .inl hid⟩
            · obtain ⟨hmem, hof, hc⟩ := (mem_nestedOf hp kinds).1 hx
              obtain ⟨hm, hopen⟩ := (ih x hx hof).1 hopen
              exact ⟨hm, .inr ⟨x.id, ⟨hmem, hc, hopen.1⟩, hopen⟩⟩
          · rintro ⟨hm, hid | ⟨k, hk, hopen⟩⟩
            · exact .inl ⟨hm, hid⟩
            · obtain ⟨x, _, rfl, hof⟩ := exists_entry_of_mem hp hk.member
              have hx := (mem_nestedOf hp kinds).2 ⟨hk.member, hof, hk.container⟩
              exact .inr ⟨_, ⟨x, hx, rfl⟩, (ih x hx hof).2 ⟨hm, hopen⟩⟩

theorem exists_entry_of_met {e : Entry} (he : e.Of p) {id : ItemId} (h : Met p e.id id) :
    ∃ m : Entry, m.id = id ∧ m.Of p := by
  rcases h with rfl | ⟨owner, _, hid⟩
  · exact ⟨e, rfl, he⟩
  · obtain ⟨m, _, hm, hof⟩ := exists_entry_of_mem hp hid
    exact ⟨m, hm, hof⟩

omit hp in
theorem met_of_opened {root id : ItemId} (h : Opened p root id) : Met p root id := by
  obtain ⟨hroot, hchain⟩ := h
  rcases Relation.ReflTransGen.cases_tail hchain with rfl | ⟨owner, howner, hnests⟩
  · exact .inl rfl
  · exact .inr ⟨owner, ⟨hroot, howner⟩, hnests.member⟩

theorem mem_ids_met {e : Entry} (he : e.Of p) (id : ItemId) :
    id ∈ (outline p kinds e).met.map Entry.id ↔ Met p e.id id := by
  rw [List.mem_map]
  constructor
  · rintro ⟨m, hm, rfl⟩
    exact ((mem_met hp kinds he m).1 hm).2
  · intro h
    obtain ⟨m, rfl, hof⟩ := exists_entry_of_met hp he h
    exact ⟨m, (mem_met hp kinds he m).2 ⟨hof, h⟩, rfl⟩

theorem mem_ids_paged {e : Entry} (he : e.Of p) (id : ItemId) :
    id ∈ ((outline p kinds e).paged false).map Entry.id ↔ Opened p e.id id := by
  rw [List.mem_map]
  constructor
  · rintro ⟨m, hm, rfl⟩
    exact ((mem_paged hp kinds he m).1 hm).2
  · intro h
    obtain ⟨m, rfl, hof⟩ := exists_entry_of_met hp he (met_of_opened h)
    exact ⟨m, (mem_paged hp kinds he m).2 ⟨hof, h⟩, rfl⟩

/-- The entries below a member: itself, and for a container what its outline meets. -/
def metBelow (p : Project) (kinds : KindTable) (m : Entry) : List Entry :=
  if m.item.container then (outline p kinds m).met else [m]

theorem met_outline_eq {e : Entry} (hb : e.isBlank = false) :
    (outline p kinds e).met =
      e :: (leavesOf p kinds e.id ++ nestedOf p kinds e.id).flatMap (metBelow p kinds) := by
  have hleaves : (leavesOf p kinds e.id).flatMap (metBelow p kinds) = leavesOf p kinds e.id := by
    rw [List.flatMap_congr (g := fun m => [m]), List.flatMap_singleton']
    intro m hm
    obtain ⟨_, hof, hc⟩ := (mem_leavesOf hp kinds).1 hm
    rw [metBelow, hof.container, hc, if_neg Bool.false_ne_true]
  have hnested : (nestedOf p kinds e.id).flatMap (metBelow p kinds) =
      (nestedOf p kinds e.id).flatMap fun m => (outline p kinds m).met := by
    refine List.flatMap_congr fun m hm => ?_
    obtain ⟨_, hof, hc⟩ := (mem_nestedOf hp kinds).1 hm
    rw [metBelow, hof.container, hc, if_pos rfl]
  rw [outline_eq, Outline.met, hb, if_neg Bool.false_ne_true, metEach_eq, List.flatMap_map,
    List.flatMap_append, hleaves, hnested]

theorem within_of_mem_metBelow {m x : Entry} (hm : m.Of p) (hx : x ∈ metBelow p kinds m) :
    p.Within x.id m.id := by
  rw [metBelow] at hx
  split at hx
  · exact within_of_met hp ((mem_met hp kinds hm x).1 hx).2
  · rw [List.mem_singleton.1 hx]
    exact .refl

theorem parent?_of_mem {id : ItemId} {m : Entry}
    (h : m ∈ leavesOf p kinds id ++ nestedOf p kinds id) :
    m.Of p ∧ p.parent? m.id = some id := by
  rw [List.mem_append, mem_leavesOf hp, mem_nestedOf hp] at h
  rcases h with ⟨hmem, hof, _⟩ | ⟨hmem, hof, _⟩
  · exact ⟨hof, (hp.member_iff _ _).1 hmem⟩
  · exact ⟨hof, (hp.member_iff _ _).1 hmem⟩

theorem pairwise_ne_members (id : ItemId) :
    (leavesOf p kinds id ++ nestedOf p kinds id).Pairwise fun a b => a.id ≠ b.id := by
  have hnodup := (leavesOf_append_nestedOf hp kinds id).nodup_iff.2 (hp.members_nodup id)
  exact List.pairwise_map.1 hnodup

/-- Two members have nothing below them in common. -/
theorem disjoint_metBelow {id : ItemId} {a b : Entry} (ha : a.Of p ∧ p.parent? a.id = some id)
    (hb : b.Of p ∧ p.parent? b.id = some id) (hne : a.id ≠ b.id) :
    List.Disjoint ((metBelow p kinds a).map Entry.id) ((metBelow p kinds b).map Entry.id) := by
  rw [List.disjoint_left]
  intro j hja hjb
  obtain ⟨x, hx, rfl⟩ := List.mem_map.1 hja
  obtain ⟨y, hy, hid⟩ := List.mem_map.1 hjb
  have hxa := within_of_mem_metBelow hp kinds ha.1 hx
  have hyb := within_of_mem_metBelow hp kinds hb.1 hy
  rw [hid] at hyb
  exact hne (hp.eq_of_within ha.2 hb.2 hxa hyb)

theorem nodup_met {e : Entry} (he : e.Of p) : ((outline p kinds e).met.map Entry.id).Nodup := by
  induction e using outline_induction p kinds with
  | step e ih =>
      cases hb : e.isBlank with
      | true =>
          rw [outline_eq, Outline.met, hb, if_pos rfl]
          exact List.nodup_singleton _
      | false =>
          rw [met_outline_eq hp kinds hb, List.map_cons, List.nodup_cons, List.map_flatMap,
            List.nodup_flatMap]
          refine ⟨?_, ?_, ?_⟩
          · rw [List.mem_flatMap]
            rintro ⟨m, hm, hmem⟩
            obtain ⟨x, hx, hid⟩ := List.mem_map.1 hmem
            obtain ⟨hof, hparent⟩ := parent?_of_mem hp kinds hm
            have hle := hp.le_of_within (within_of_mem_metBelow hp kinds hof hx)
            rw [hid] at hle
            exact absurd (hp.parent_lt _ _ hparent) (Nat.not_lt_of_le hle)
          · intro m hm
            rw [metBelow]
            split
            · rename_i hc
              obtain ⟨hof, hparent⟩ := parent?_of_mem hp kinds hm
              refine ih m ((mem_nestedOf hp kinds).2 ⟨(hp.member_iff _ _).2 hparent, hof, ?_⟩) hof
              rw [← hof.container, hc]
            · exact List.nodup_singleton _
          · refine (pairwise_ne_members hp kinds e.id).imp_of_mem fun {a b} ha hb hne => ?_
            exact disjoint_metBelow hp kinds (parent?_of_mem hp kinds ha)
              (parent?_of_mem hp kinds hb) hne

end Forest

end Page
end DocPages
