/-
Full names follow the tree and never change.

A full name is found by going up the links from an item to its containers.  `climb` is that
walk as a loop of so many turns, which nothing but an item without a container ends, and `Way`
goes down the lists of members instead, from the top of a namespace.  In a forest there is one
way to an item, and the walk takes it backwards.

What is done to a project later changes neither the name of an item nor the container it is
in: `Keeps`.  The theorem this file exists for is `fullName_follows`.
-/
import DocPages.Plugin.Pipeline
import DocPages.Proofs.Project.Turns
import Mathlib.Data.List.Nodup

namespace DocPages
namespace Project

/-! ## Up and down -/

/-- The walk from an item up, as far as it gets in this many turns.  `names` are those of the
items it has passed. -/
def climb (p : Project) : Nat → Option ItemId → List String → Option (List String)
  | _, none, names => some names
  | 0, some _, _ => none
  | turns + 1, some id, names =>
    (p.item? id).bind fun item => climb p turns item.parent (item.name :: names)

/-- The items that are passed on the way from the top of a namespace down to an item. -/
inductive Way (p : Project) (ns : Namespace) : List ItemId → ItemId → Prop where
  | top {id : ItemId} (h : id ∈ ns.items) : Way p ns [id] id
  | member {ids : List ItemId} {owner id : ItemId} (h : Way p ns ids owner)
      (hm : id ∈ p.members owner) : Way p ns (ids ++ [id]) id

theorem exists_item {p : Project} {id : ItemId} (h : id < p.items.size) :
    ∃ item, p.item? id = some item ∧ item.parent = p.parent? id := by
  refine ⟨p.items[id], Array.getElem?_eq_getElem h, ?_⟩
  rw [parent?, item?, Array.getElem?_eq_getElem h, Option.bind_some]

theorem lt_of_parent? {p : Project} {owner id : ItemId} (h : p.parent? id = some owner) :
    id < p.items.size := by
  refine Nat.lt_of_not_le fun hle => ?_
  rw [parent?_eq_none hle] at h
  cases h

section Forest

variable {p : Project} (hp : p.IsForest)

include hp

theorem IsForest.parent?_top {ns : Namespace} (hns : ns ∈ p.namespaces.toList) {id : ItemId}
    (hid : id ∈ ns.items) : id < p.items.size ∧ p.parent? id = none :=
  (hp.top_iff id).1 (List.mem_flatMap.2 ⟨ns, hns, hid⟩)

/-- An item stands at the top of one namespace. -/
theorem IsForest.namespace_unique {a b : Namespace}
    (ha : a ∈ p.namespaces.toList) (hb : b ∈ p.namespaces.toList) {id : ItemId}
    (hida : id ∈ a.items) (hidb : id ∈ b.items) : a = b := by
  -- The lists of the namespaces have no item in common.
  have hnodup : p.topLevel.Nodup :=
    (List.nodup_append.1 (hp.owned_perm.nodup_iff.2 List.nodup_range)).1
  have hapart := (List.nodup_flatMap.1 hnodup).2
  by_contra hne
  have hsymm : Std.Symm (Function.onFun List.Disjoint Namespace.items) :=
    ⟨fun _ _ h _ ha hb => h hb ha⟩
  exact hapart.forall ha hb hne hida hidb

/-- An item at the top of a namespace has no names before its own. -/
theorem IsForest.path_top {ns : Namespace} (hns : ns ∈ p.namespaces.toList) {id : ItemId}
    {item : Item} (hid : id ∈ ns.items) (hitem : p.item? id = some item) :
    p.path id = [item.name] := by
  have htop := (hp.parent?_top hns hid).2
  rw [parent?, hitem, Option.bind_some] at htop
  rw [path, hitem]
  simp only [htop]

/-- A member stands one name below its owner. -/
theorem IsForest.path_member {owner id : ItemId} {item : Item} (hm : id ∈ p.members owner)
    (hitem : p.item? id = some item) : p.path id = p.path owner ++ [item.name] := by
  have hparent := (hp.member_iff owner id).1 hm
  have hlt := hp.parent_lt owner id hparent
  rw [parent?, hitem, Option.bind_some] at hparent
  rw [path, hitem]
  simp only [hparent, if_pos hlt]

/-- The walk takes a way back, one turn for each item. -/
theorem Way.exists_items {ns : Namespace} (hns : ns ∈ p.namespaces.toList) {ids : List ItemId}
    {id : ItemId} (h : Way p ns ids id) :
    ∃ items : List Item, ids.map p.item? = items.map some ∧ p.path id = items.map Item.name ∧
      ∀ names, p.climb ids.length (some id) names = some (items.map Item.name ++ names) := by
  induction h with
  | @top id hid =>
      obtain ⟨hlt, hparent⟩ := hp.parent?_top hns hid
      obtain ⟨item, hitem, hown⟩ := exists_item hlt
      refine ⟨[item], by rw [List.map_singleton, hitem, List.map_singleton],
        hp.path_top hns hid hitem, fun names => ?_⟩
      show (p.item? id).bind _ = _
      rw [hitem, Option.bind_some, hown, hparent]
      rfl
  | @member ids owner id _ hm ih =>
      obtain ⟨items, hitems, hpath, hclimb⟩ := ih
      have hparent := (hp.member_iff owner id).1 hm
      obtain ⟨item, hitem, hown⟩ := exists_item (lt_of_parent? hparent)
      refine ⟨items ++ [item], ?_, ?_, fun names => ?_⟩
      · rw [List.map_append, List.map_append, hitems, List.map_singleton, hitem,
          List.map_singleton]
      · rw [hp.path_member hm hitem, hpath, List.map_append, List.map_singleton]
      · rw [List.length_append, List.length_singleton, climb, hitem, Option.bind_some, hown,
          hparent, hclimb, List.map_append, List.map_singleton, List.append_assoc,
          List.singleton_append]

theorem IsForest.exists_way {id : ItemId} (h : id < p.items.size) :
    ∃ ns ∈ p.namespaces.toList, ∃ ids, Way p ns ids id := by
  induction id using Nat.strong_induction_on with
  | _ id ih =>
      cases hparent : p.parent? id with
      | none =>
          obtain ⟨ns, hns, hid⟩ := List.mem_flatMap.1 ((hp.top_iff id).2 ⟨h, hparent⟩)
          exact ⟨ns, hns, [id], .top hid⟩
      | some owner =>
          have hlt := hp.parent_lt owner id hparent
          obtain ⟨ns, hns, ids, hway⟩ := ih owner hlt (Nat.lt_trans hlt h)
          exact ⟨ns, hns, ids ++ [id], .member hway ((hp.member_iff owner id).2 hparent)⟩

theorem Way.unique {ns ns' : Namespace} (hns : ns ∈ p.namespaces.toList)
    (hns' : ns' ∈ p.namespaces.toList) {ids ids' : List ItemId} {id : ItemId}
    (h : Way p ns ids id) (h' : Way p ns' ids' id) : ns' = ns ∧ ids' = ids := by
  induction h generalizing ids' with
  | top hid =>
      cases h' with
      | top hid' => exact ⟨hp.namespace_unique hns' hns hid' hid, rfl⟩
      | member _ hm =>
          rw [hp.member_iff, (hp.parent?_top hns hid).2] at hm
          cases hm
  | member _ hm ih =>
      rw [hp.member_iff] at hm
      cases h' with
      | top hid =>
          rw [(hp.parent?_top hns' hid).2] at hm
          cases hm
      | member hway hm' =>
          rw [hp.member_iff, hm] at hm'
          cases hm'
          obtain ⟨rfl, rfl⟩ := ih hway
          exact ⟨rfl, rfl⟩

end Forest

/-! ## What happens later -/

/-- Every item is still there, under its name and in its container. -/
def Keeps (p q : Project) : Prop :=
  ∀ id item, p.item? id = some item →
    ∃ new, q.item? id = some new ∧ new.name = item.name ∧ new.parent = item.parent

theorem Keeps.refl (p : Project) : Keeps p p := fun _ item h => ⟨item, h, rfl, rfl⟩

theorem Keeps.trans {p q r : Project} (h : Keeps p q) (h' : Keeps q r) : Keeps p r := by
  intro id item hitem
  obtain ⟨new, hnew, hname, hparent⟩ := h id item hitem
  obtain ⟨last, hlast, hname', hparent'⟩ := h' id new hnew
  exact ⟨last, hlast, hname'.trans hname, hparent'.trans hparent⟩

/-- Names and links alone make the full names. -/
theorem path_congr {p q : Project} {id : ItemId}
    (h : ∀ i ≤ id, (q.item? i).map (fun item => (item.name, item.parent)) =
      (p.item? i).map fun item => (item.name, item.parent)) : q.path id = p.path id := by
  induction id using Nat.strong_induction_on with
  | _ id ih =>
      have hid := h id (Nat.le_refl id)
      rw [path, path]
      cases hq : q.item? id with
      | none =>
          rw [hq, Option.map_none, eq_comm, Option.map_eq_none_iff] at hid
          rw [hid]
      | some new =>
          rw [hq, Option.map_some, eq_comm, Option.map_eq_some_iff] at hid
          obtain ⟨item, hitem, hsame⟩ := hid
          obtain ⟨hname, hparent⟩ := Prod.mk.inj hsame
          rw [hitem]
          simp only [hname, hparent]
          cases new.parent with
          | none => rfl
          | some owner =>
              by_cases hlt : owner < id
              · simp only [if_pos hlt]
                rw [ih owner hlt fun i hi => h i (Nat.le_trans hi (Nat.le_of_lt hlt))]
              · simp only [if_neg hlt]

theorem Keeps.path {p q : Project} (h : Keeps p q) {id : ItemId} (hid : id < p.items.size) :
    q.path id = p.path id := by
  refine path_congr fun i hi => ?_
  have hlt : i < p.items.size := Nat.lt_of_le_of_lt hi hid
  have hitem : p.item? i = some p.items[i] := Array.getElem?_eq_getElem hlt
  obtain ⟨new, hnew, hname, hparent⟩ := h i _ hitem
  rw [hnew, hitem, Option.map_some, Option.map_some, hname, hparent]

theorem keeps_modify (p : Project) (id : ItemId) {f : Item → Item}
    (hname : ∀ item, (f item).name = item.name) (hparent : ∀ item, (f item).parent = item.parent) :
    Keeps p { p with items := p.items.modify id f } := by
  intro other item hitem
  have hmodify : Project.item? { p with items := p.items.modify id f } other =
      if id = other then (p.item? other).map f else p.item? other := Array.getElem?_modify
  rw [hmodify, hitem]
  split
  · exact ⟨f item, rfl, hname item, hparent item⟩
  · exact ⟨item, rfl, rfl, rfl⟩

theorem keeps_push (p : Project) (item : Item) (parent : Option ItemId) :
    Keeps p (p.push item parent).1 := by
  intro id old hold
  have hlt : id < p.items.size := (Array.getElem?_eq_some_iff.1 hold).1
  refine ⟨old, ?_, rfl, rfl⟩
  rw [item?_push_of_lt item parent hlt, ← hold, item?, Array.getElem?_eq_getElem hlt]

theorem keeps_namespaceIndex (p : Project) (name package : String) :
    Keeps p (p.namespaceIndex name package).1 := by
  unfold namespaceIndex
  split <;> exact .refl p

theorem keeps_addFile {p : Project} (hp : p.IsForest) (package path : String)
    (ds : List Declaration) : Keeps p (p.addFile package path ds).1 := by
  refine addFile_keeps (I := fun q _ => Keeps p q) ?_ (fun _ _ _ _ h => h) hp (.refl p)
  intro d _ index q opened r opened' _ _ hturn h
  refine h.trans fun id item hitem => ?_
  obtain ⟨new, hnew, hcarries⟩ := hturn.exists_item hitem
  exact ⟨new, hnew, hcarries.name, hcarries.parent⟩

theorem keeps_setKinds (p : Project) (changes : List (ItemId × String)) :
    Keeps p (p.setKinds changes) := by
  induction changes generalizing p with
  | nil => exact .refl p
  | cons change rest ih =>
      have hfirst : Keeps p (p.setKind change.1 change.2) :=
        keeps_modify p change.1 (fun _ => rfl) fun _ => rfl
      exact hfirst.trans (ih _)

/-! ## Runs of plugins -/

/-- All that these plugins do to a project is to give items other kinds. -/
def SetsKinds (σ : Type) [Plugin σ] : Prop :=
  ∀ (plugin : σ) (p : Project), ∃ changes, (Plugin.generate plugin p).project = p.setKinds changes

theorem setsKinds_kindRules : SetsKinds KindRules := exists_setKinds_generate

theorem exists_setKinds_run {σ : Type} [Plugin σ] (hσ : SetsKinds σ) (pipeline : Pipeline σ)
    (p : Project) : ∃ changes, (pipeline.run p).2.1 = p.setKinds changes := by
  show ∃ changes, (Pipeline.runSlots p pipeline.slots).2.1 = p.setKinds changes
  induction pipeline.slots generalizing p with
  | nil => exact ⟨[], rfl⟩
  | cons slot rest ih =>
      rw [Pipeline.runSlots]
      cases slot.isActive with
      | false => exact ih p
      | true =>
          have hslot : (slot.run p).2.1 = (Plugin.generate slot.plugin p).project := by
            unfold Slot.run
            simp only
            split <;> rfl
          obtain ⟨changes, hchanges⟩ := hσ slot.plugin p
          obtain ⟨more, hmore⟩ := ih (slot.run p).2.1
          refine ⟨changes ++ more, hmore.trans ?_⟩
          rw [hslot, hchanges, setKinds_append]

/-! ## Sequences -/

/-- What one operation, or one run of plugins, makes of a project. -/
inductive Step (p : Project) : Project → Prop where
  | operation (op : Operation) (h : op.Fits p) : Step p (op.run p)
  | plugins {σ : Type} [Plugin σ] (h : SetsKinds σ) (pipeline : Pipeline σ) :
      Step p (pipeline.run p).2.1

/-- What any sequence of them makes of it. -/
def Later : Project → Project → Prop := Relation.ReflTransGen Step

theorem Step.isForest {p q : Project} (h : Step p q) (hp : p.IsForest) : q.IsForest := by
  cases h with
  | operation op hop => exact hp.run op hop
  | plugins hσ pipeline =>
      obtain ⟨changes, hrun⟩ := exists_setKinds_run hσ pipeline p
      rw [hrun]
      exact hp.of_shape (shape_setKinds p changes)

theorem Step.keeps {p q : Project} (h : Step p q) (hp : p.IsForest) : Keeps p q := by
  cases h with
  | operation op hop =>
      cases op with
      | namespaceIndex name package => exact keeps_namespaceIndex p name package
      | addTopLevel index item => exact keeps_push p item none
      | addMember parent item =>
          exact (keeps_push p item (some parent)).trans
            (keeps_modify _ parent (fun _ => rfl) fun _ => rfl)
      | mergePart id part => exact keeps_modify p id (fun _ => rfl) fun _ => rfl
      | setKind id kind => exact keeps_modify p id (fun _ => rfl) fun _ => rfl
      | addFile package path ds => exact keeps_addFile hp package path ds
      | generate plugin =>
          obtain ⟨changes, hrun⟩ := setsKinds_kindRules plugin p
          show Keeps p (Plugin.generate plugin p).project
          exact hrun ▸ keeps_setKinds p changes
  | plugins hσ pipeline =>
      obtain ⟨changes, hrun⟩ := exists_setKinds_run hσ pipeline p
      exact hrun ▸ keeps_setKinds p changes

theorem Later.keeps {p q : Project} (h : Later p q) (hp : p.IsForest) :
    q.IsForest ∧ Keeps p q := by
  induction h with
  | refl => exact ⟨hp, .refl p⟩
  | tail _ hstep ih => exact ⟨hstep.isForest ih.1, ih.2.trans (hstep.keeps ih.1)⟩

/-- One way leads down to an item.  The walk up ends after as many turns as there are items on
it, the full name is made of their names, and it stays the same whatever is done later. -/
theorem fullName_follows {p : Project} (h : Reachable p) {id : ItemId} (hid : id < p.items.size) :
    ∃ ns ∈ p.namespaces.toList, ∃ (ids : List ItemId) (items : List Item), Way p ns ids id ∧
      (∀ ns' ∈ p.namespaces.toList, ∀ ids', Way p ns' ids' id → ns' = ns ∧ ids' = ids) ∧
      ids.map p.item? = items.map some ∧
      p.climb ids.length (some id) [] = some (items.map Item.name) ∧
      p.fullName id = ".".intercalate (items.map Item.name) ∧
      ∀ q, Later p q → q.fullName id = p.fullName id := by
  have hp := h.isForest
  obtain ⟨ns, hns, ids, hway⟩ := hp.exists_way hid
  obtain ⟨items, hitems, hpath, hclimb⟩ := hway.exists_items hp hns
  refine ⟨ns, hns, ids, items, hway, ?_, hitems, ?_, ?_, ?_⟩
  · exact fun ns' hns' ids' hway' => hway.unique hp hns hns' hway'
  · rw [hclimb, List.append_nil]
  · rw [fullName, hpath]
  · intro q hlater
    rw [fullName, fullName, (hlater.keeps hp).2.path hid]

/-- A type in a type, and a field in it. -/
def nestedTypes : Project :=
  (Operation.addFile "Assets" "F"
    [{ names := ["Outer"], kind := .classType, rawComment := "/// o", inNamespace := "Game.Core" },
     { names := ["Inner"], kind := .classType, rawComment := "/// i", parent := some 0,
       inNamespace := "Game.Core" },
     { names := ["Value"], kind := .field, rawComment := "/// v", parent := some 1,
       inNamespace := "Game.Core" }]).run {}

/-- Another part of the inner type, one more member of it, and fields that are given another
kind. -/
def nestedTypesLater : Project :=
  let merged := (Operation.mergePart 1 (Item.new "Other" "class" "part")).run nestedTypes
  let grown := (Operation.addMember 1 (Item.new "More" "field" "m")).run merged
  let plugin : KindRules := { rules := [⟨"class", "Output", "port"⟩] }
  ({ slots := [{ plugin, enabled := true }] } : Pipeline KindRules).run grown |>.2.1

theorem fullName_follows_nestedTypes :
    Reachable nestedTypes ∧ 2 < nestedTypes.items.size ∧ Later nestedTypes nestedTypesLater ∧
      nestedTypes.climb 3 (some 2) [] = some ["Outer", "Inner", "Value"] ∧
      nestedTypes.fullName 2 = "Outer.Inner.Value" ∧
      nestedTypesLater.fullName 2 = "Outer.Inner.Value" := by
  have hreachable : Reachable nestedTypes := .step _ .empty trivial
  have hsize : 2 < nestedTypes.items.size := by decide +kernel
  have hlater : Later nestedTypes nestedTypesLater := by
    refine .tail (.tail (.single (.operation (.mergePart 1 _) trivial))
      (.operation (.addMember 1 _) ?_)) (.plugins setsKinds_kindRules _)
    show 1 < _
    decide +kernel
  obtain ⟨_, _, _, _, _, _, _, _, _, hsame⟩ := fullName_follows hreachable hsize
  have hname : nestedTypes.fullName 2 = "Outer.Inner.Value" := by decide +kernel
  exact ⟨hreachable, hsize, hlater, by decide +kernel, hname, (hsame _ hlater).trans hname⟩

end Project
end DocPages
