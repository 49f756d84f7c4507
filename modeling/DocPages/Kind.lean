/-
Kinds of items: their order on a page, the headings of members, and the titles of
groups of members.
-/
import DocPages.Naming

namespace DocPages

/-- Three lists that run in step: the kinds in the order of their groups, a heading
template for each, and a group title for each.  A list that is too short leaves its
last kinds without an entry. -/
structure KindTable where
  order : List String
  templates : List String
  titles : List String
deriving Repr, DecidableEq

namespace KindTable

open Text

/-- The heading template of a kind that has none of its own. -/
def defaultTemplate (kind : String) : String := kind ++ " \x7b0\x7d"

/-- The plural of a kind, as a title. -/
def defaultTitle (kind : String) : String :=
  let word := (Naming.capitalize kind).toList
  match stripEnd? ['y'] word with
  | some stem =>
    if stem.getLast?.any ("aeiou".toList.contains ·) then String.ofList (word ++ ['s'])
    else String.ofList (stem ++ "ies".toList)
  | none => String.ofList (word ++ ['s'])

def ofOrder (order : List String) : KindTable :=
  ⟨order, order.map defaultTemplate, order.map defaultTitle⟩

def default : KindTable := ofOrder ["enum", "method", "property", "field"]

def position (t : KindTable) (kind : String) : Option Nat := t.order.idxOf? kind

/-- The title of the group of a kind, if the table has one. -/
def title (t : KindTable) (kind : String) : Option String :=
  (t.position kind).bind (t.titles[·]?)

/-- The heading of a member: its kind's template with the two slots filled, first
the name and then the kind, or the bare name. -/
def heading (t : KindTable) (name kind : String) : String :=
  match (t.position kind).bind (t.templates[·]?) with
  | some template =>
    let named := replaceAll '\x7b' ['0', '\x7d'] name.toList template.toList
    String.ofList (replaceAll '\x7b' ['1', '\x7d'] kind.toList named)
  | none => name

/-- Kinds that the order does not list, by first appearance. -/
def unlisted (t : KindTable) (kinds : List String) : List String :=
  (kinds.filter fun k => (t.position k).isNone).foldl
    (fun seen k => if seen.contains k then seen else seen ++ [k]) []

/-- The place of a kind among the groups of a list of items: its position in the
order, or after all of those for the kinds that the order does not list. -/
def rank (t : KindTable) (extra : List String) (kind : String) : Nat :=
  match t.position kind with
  | some i => i
  | none => t.order.length + (extra.idxOf? kind).getD 0

/-- Sorts by group and then by name; items alike in both keep their order. -/
def sortBy {α : Type} (t : KindTable) (kind name : α → String) (items : List α) : List α :=
  let extra := t.unlisted (items.map kind)
  items.mergeSort fun a b =>
    let i := t.rank extra (kind a)
    let j := t.rank extra (kind b)
    decide (i < j) || (i == j && decide (name a ≤ name b))

end KindTable
end DocPages
