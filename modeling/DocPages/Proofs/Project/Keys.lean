/-
What tells types apart, and what is known of a type.

A type is known by its key: the namespace, and the names and kinds of the type and of the
types around it.  An item has one key by the links of its project (`Keyed.unique`), and a
key has one item (`Keyed.eq_of_key`) where no two siblings are of one name and kind.
`withParts` is what the parts of a type add up to.
-/
import DocPages.Proofs.Project.FullNames
import DocPages.Proofs.Project.Partials

namespace DocPages

/-- What an item says, apart from where it stands. -/
def Item.contents (item : Item) : Item := { item with members := [], parent := none }

theorem Item.contents_merge (item part : Item) :
    (item.merge part).contents = item.contents.merge part := rfl

namespace Project

/-! ## Keys -/

/-- What tells types apart.  The type itself comes first in the path. -/
structure TypeKey where
  inNamespace : String
  path : List (String × String)
deriving Repr, DecidableEq

namespace TypeKey

/-- The key of all that stands at the top of a namespace. -/
def top (inNamespace : String) : TypeKey := ⟨inNamespace, []⟩

def inside (outer : TypeKey) (name kind : String) : TypeKey :=
  { outer with path := (name, kind) :: outer.path }

theorem inside_inj {a b : TypeKey} {name kind name' kind' : String}
    (h : a.inside name kind = b.inside name' kind') : a = b ∧ name = name' ∧ kind = kind' := by
  obtain ⟨hns, hpath⟩ := TypeKey.mk.inj h
  obtain ⟨hfirst, hrest⟩ := List.cons.inj hpath
  obtain ⟨hname, hkind⟩ := Prod.mk.inj hfirst
  cases a
  cases b
  cases hns
  cases hrest
  exact ⟨rfl, hname, hkind⟩

end TypeKey

/-- The key of a declaration of a file.  A parent comes before its members. -/
def typeKey (ds : List Declaration) (i : Nat) : TypeKey :=
  match ds[i]? with
  | none => .top ""
  | some d =>
    let outer : TypeKey :=
      match d.parent with
      | none => .top d.inNamespace
      | some j => if j < i then typeKey ds j else .top d.inNamespace
    outer.inside (d.names.headD "") d.kind.word
termination_by i

/-- The key that an item has by its names and links, and the key of the top of a
namespace, which is no item. -/
inductive Keyed (p : Project) : Option ItemId → TypeKey → Prop where
  | top (inNamespace : String) : Keyed p none (.top inNamespace)
  | inside {owner : Option ItemId} {outer : TypeKey} {id : ItemId} {item : Item}
      (howner : Keyed p owner outer) (hid : id ∈ p.siblings outer.inNamespace owner)
      (hitem : p.item? id = some item) : Keyed p (some id) (outer.inside item.name item.kind)

section Keyed

variable {p : Project}

theorem IsForest.inNamespace_unique (hp : p.IsForest) {a b : String} {id : ItemId}
    (ha : id ∈ p.siblings a none) (hb : id ∈ p.siblings b none) : a = b := by
  obtain ⟨x, hx, rfl, hidx⟩ := exists_namespace ha
  obtain ⟨y, hy, rfl, hidy⟩ := exists_namespace hb
  rw [hp.namespace_unique hx hy hidx hidy]

/-- An item has one key. -/
theorem Keyed.unique (hp : p.IsForest) {owner : Option ItemId} {a b : TypeKey}
    (ha : Keyed p owner a) (hb : Keyed p owner b)
    (hns : owner = none → a.inNamespace = b.inNamespace) : a = b := by
  induction ha generalizing b with
  | top inNamespace =>
      cases hb with
      | top other => rw [show inNamespace = other from hns rfl]
  | @inside owner outer id item howner hid hitem ih =>
      cases hb with
      | @inside owner' outer' _ item' howner' hid' hitem' =>
          rw [hitem, Option.some.injEq] at hitem'
          subst hitem'
          have hsame : owner = owner' :=
            (hp.of_mem_siblings hid).2.symm.trans (hp.of_mem_siblings hid').2
          subst hsame
          rw [ih howner' fun hnone => ?_]
          subst hnone
          exact hp.inNamespace_unique hid hid'

/-- Two containers of the same key are one. -/
theorem Keyed.eq_of_key (hp : p.IsForest) (hhoused : Building.Housed p [])
    (hone : ∀ inNamespace owner, p.OneOfEach (p.siblings inNamespace owner))
    {a b : Option ItemId} {key : TypeKey} (ha : Keyed p a key) (hb : Keyed p b key)
    (hac : ∀ id, a = some id → p.IsContainer id) (hbc : ∀ id, b = some id → p.IsContainer id) :
    a = b := by
  have howners : ∀ {inNamespace owner id}, id ∈ p.siblings inNamespace owner →
      ∀ o, owner = some o → p.IsContainer o := by
    rintro inNamespace owner id hid o rfl
    have hparent := (hp.of_mem_siblings hid).2
    obtain ⟨item, hitem, howner⟩ := Option.bind_eq_some_iff.1 hparent
    exact hhoused.owners id item o hitem howner
  induction ha generalizing b with
  | top inNamespace =>
      generalize hkey : TypeKey.top inNamespace = key at hb
      cases hb with
      | top => rfl
      | inside => cases hkey
  | @inside owner outer id item howner hid hitem ih =>
      generalize hkey : outer.inside item.name item.kind = key at hb
      cases hb with
      | top => cases hkey
      | @inside owner' outer' id' item' howner' hid' hitem' =>
          obtain ⟨rfl, hname, hkind⟩ := TypeKey.inside_inj hkey
          obtain rfl := ih howner' (howners hid) (howners hid')
          obtain ⟨x, hx, hxc⟩ := hac id rfl
          obtain ⟨y, hy, hyc⟩ := hbc id' rfl
          cases hitem.symm.trans hx
          cases hitem'.symm.trans hy
          rw [hone outer.inNamespace owner id hid id' hid' item item' hitem hitem' hxc hyc hname
            hkind]

end Keyed

/-! ## What the parts of a type add up to -/

/-- What is known of a type, and what further parts say of it. -/
def withParts (known : Option Item) (parts : List Item) : Option Item :=
  parts.foldl (fun known part => some ((known.map (·.merge part)).getD part)) known

theorem withParts_append (known : Option Item) (a b : List Item) :
    withParts known (a ++ b) = withParts (withParts known a) b :=
  List.foldl_append

theorem withParts_some (item : Item) (parts : List Item) :
    withParts (some item) parts = some (parts.foldl Item.merge item) := by
  induction parts generalizing item with
  | nil => rfl
  | cons part rest ih => exact ih (item.merge part)

/-- What is known of the container of that id, if it is one. -/
def type? (p : Project) (id : ItemId) : Option Item :=
  ((p.item? id).filter Item.container).map Item.contents

theorem type?_eq_none {p : Project} {id : ItemId} (h : p.items.size ≤ id) : p.type? id = none := by
  rw [type?, item?, Array.getElem?_eq_none h]
  rfl

section

variable {p : Project} (package : String) (d : Declaration) {parent : Option ItemId}
  (markup : String) (names : List String) {id : ItemId}

theorem type?_attachAll_of_lt (hid : id < p.items.size) :
    (p.attachAll package d parent markup names).type? id = p.type? id := by
  have hitem : p.item? id = some p.items[id] := Array.getElem?_eq_getElem hid
  obtain ⟨members, hkept⟩ := item?_attachAll_of_some package d parent markup names hitem
  rw [type?, type?, hkept, hitem, Option.filter_some, Option.filter_some]
  split <;> rfl

theorem type?_attachAll_of_ge (hparent : ∀ id, parent = some id → id < p.items.size)
    (hid : p.items.size ≤ id) :
    (p.attachAll package d parent markup names).type? id =
      if d.kind.isContainer then names[id - p.items.size]?.map (itemFor d · markup) else none := by
  have hsize := size_attachAll p package d parent markup names
  rcases Nat.lt_or_ge id (p.attachAll package d parent markup names).items.size with hlt | hge
  · have hitem : (p.attachAll package d parent markup names).item? id =
        some (p.attachAll package d parent markup names).items[id] := Array.getElem?_eq_getElem hlt
    obtain ⟨name, members, hname, hmade⟩ := item?_attachAll_new package d hparent markup hid hitem
    have hcontainer := container_itemFor d name markup
    rw [type?, hitem, hmade, hname, Option.filter_some]
    by_cases hc : d.kind.isContainer = true
    · rw [if_pos (hcontainer.trans hc), if_pos hc]
      rfl
    · rw [if_neg (fun h => hc (hcontainer.symm.trans h)), if_neg hc]
      rfl
  · have hnone : names[id - p.items.size]? = none := List.getElem?_eq_none (by omega)
    rw [type?_eq_none hge, hnone]
    split <;> rfl

/-- Declarations that are no types add to no type. -/
theorem type?_attachAll_member (hparent : ∀ id, parent = some id → id < p.items.size)
    (hc : ¬ d.kind.isContainer = true) :
    (p.attachAll package d parent markup names).type? id = p.type? id := by
  rcases Nat.lt_or_ge id p.items.size with hlt | hge
  · exact type?_attachAll_of_lt package d markup names hlt
  · rw [type?_attachAll_of_ge package d markup names hparent hge, if_neg hc, type?_eq_none hge]

end

/-- The only name of a type makes the only new item, unless it is blank. -/
theorem type?_attachAll_single {p : Project} (package : String) {d : Declaration}
    {parent : Option ItemId} (hparent : ∀ id, parent = some id → id < p.items.size)
    (hc : d.kind.isContainer = true) {only : String} (honly : d.names = [only]) (id : ItemId) :
    (p.attachAll package d parent (Comment.normalize d.rawComment) (filledNames d.names)).type? id =
      withParts (p.type? id)
        (if ((filledNames d.names).head?.map fun _ => p.items.size) = some id then [partOf d]
        else []) := by
  rcases Nat.lt_or_ge id p.items.size with hlt | hge
  · have hnot : ((filledNames d.names).head?.map fun _ => p.items.size) ≠ some id := by
      intro h
      obtain ⟨_, _, rfl⟩ := Option.map_eq_some_iff.1 h
      exact Nat.lt_irrefl _ hlt
    rw [type?_attachAll_of_lt package d _ _ hlt, if_neg hnot]
    rfl
  · rw [type?_attachAll_of_ge package d _ _ hparent hge, if_pos hc, type?_eq_none hge, partOf,
      honly]
    by_cases hblank : isBlankName only = true
    · simp [filledNames, hblank, withParts]
    · rcases Nat.eq_or_lt_of_le hge with rfl | hgt
      · simp [filledNames, hblank, withParts]
      · have hpast : id - p.items.size ≠ 0 := Nat.sub_ne_zero_of_lt hgt
        simp [filledNames, hblank, withParts, Nat.ne_of_lt hgt, hpast]

theorem type?_mergePart {p : Project} {found : ItemId} (hfound : p.IsContainer found)
    (part : Item) (id : ItemId) :
    (p.mergePart found part).type? id =
      withParts (p.type? id) (if found = id then [part] else []) := by
  obtain ⟨item, hitem, hc⟩ := hfound
  by_cases hid : found = id
  · subst hid
    have hc' : (item.merge part).container = true := (item.merge_container part).trans hc
    have hknown : p.type? found = some item.contents := by
      rw [type?, hitem, Option.filter_some, if_pos hc, Option.map_some]
    rw [if_pos rfl, hknown, withParts_some, type?, item?_mergePart, if_pos rfl, hitem,
      Option.map_some, Option.filter_some, if_pos hc', Option.map_some, Item.contents_merge,
      List.foldl_cons, List.foldl_nil]
  · rw [if_neg hid, type?, item?_mergePart, if_neg hid]
    rfl

end Project
end DocPages
