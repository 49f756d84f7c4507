/-
What a page shows of an item: the item, the members that hold nothing further, and the
types nested in it.

Everything that is written about a page walks one outline, so the contents, the anchors
and the text cannot differ in what they visit or in which order.
-/
import DocPages.Kind
import DocPages.Project.Basic

namespace DocPages
namespace Page

/-- How pages are written. -/
structure Options where
  writeTitle : Bool := true
  writeContents : Bool := false
  writeAttributes : Bool := true
  /-- Nested types are part of the page of their container. -/
  inlineTypes : Bool := false
  kinds : KindTable := .default
deriving Repr, DecidableEq

/-- An item with its place and its full name. -/
structure Entry where
  id : ItemId
  item : Item
  fullName : String
deriving Repr, DecidableEq

/-- Why an entry is not shown. -/
inductive Skip where
  | noName (kind : String)
  | noMarkup (fullName : String)
deriving Repr, DecidableEq

/-- An entry needs a name and documentation. -/
def Entry.skip? (e : Entry) : Option Skip :=
  if Text.allBlank e.item.name.toList then some (.noName e.item.kind)
  else if Text.allBlank e.item.markup.toList then some (.noMarkup e.fullName)
  else none

def Entry.isBlank (e : Entry) : Bool := e.skip?.isSome

inductive Outline where
  | node (entry : Entry) (leaves : List Entry) (nested : List Outline)
deriving Repr

def Outline.entry : Outline → Entry
  | .node entry _ _ => entry

def entryOf? (p : Project) (id : ItemId) : Option Entry :=
  (p.item? id).map fun item => ⟨id, item, p.fullName id⟩

/-- The members of an item.  They all stand behind it in the project. -/
def memberEntries (p : Project) (id : ItemId) : List Entry :=
  ((p.members id).filterMap (entryOf? p)).filter fun e => decide (id < e.id)

theorem entryOf?_id {p : Project} {id : ItemId} {e : Entry} (h : entryOf? p id = some e) :
    e.id = id ∧ id < p.items.size := by
  simp only [entryOf?, Option.map_eq_some_iff, Project.item?] at h
  obtain ⟨item, hi, rfl⟩ := h
  exact ⟨rfl, (Array.getElem?_eq_some_iff.1 hi).1⟩

theorem of_mem_memberEntries {p : Project} {id : ItemId} {e : Entry}
    (h : e ∈ memberEntries p id) : id < e.id ∧ e.id < p.items.size := by
  simp only [memberEntries, List.mem_filter, List.mem_filterMap, decide_eq_true_eq] at h
  obtain ⟨⟨m, _, hm⟩, hlt⟩ := h
  obtain ⟨rfl, hm⟩ := entryOf?_id hm
  exact ⟨hlt, hm⟩

def sortEntries (kinds : KindTable) (entries : List Entry) : List Entry :=
  kinds.sortBy (·.item.kind) (·.item.name) entries

theorem mem_sortEntries {kinds : KindTable} {entries : List Entry} {e : Entry} :
    e ∈ sortEntries kinds entries ↔ e ∈ entries := by
  simp [sortEntries, KindTable.sortBy]

/-- The outline of an entry.  Leaves and nested types are sorted apart, since a kind that
the table does not list is ranked among its neighbours. -/
def outline (p : Project) (kinds : KindTable) (e : Entry) : Outline :=
  let members := memberEntries p e.id
  let leaves := sortEntries kinds (members.filter fun m => !m.item.container)
  let nested := sortEntries kinds (members.filter fun m => m.item.container)
  .node e leaves (nested.attach.map fun m => outline p kinds m.1)
termination_by p.items.size - e.id
decreasing_by
  have hm := m.2
  simp only [nested, members, mem_sortEntries, List.mem_filter] at hm
  obtain ⟨hlt, hsize⟩ := of_mem_memberEntries hm.1
  exact Nat.sub_lt_sub_left (Nat.lt_trans hlt hsize) hlt

end Page
end DocPages
