/-
TOML values, and tables under construction.

A table comes about in three ways: by a header of its own, by a header of a table below
it, or by a dotted key.  How it came about decides what may still be added to it.
-/
namespace DocPages
namespace Toml

inductive Value where
  | text (content : String)
  | boolean (value : Bool)
  /-- A number, a date or a time. -/
  | other
  | array (elements : List Value)
  | table (entries : List (String × Value))
deriving Repr

inductive Origin where
  | header
  | implied
  | dotted
deriving Repr, DecidableEq

inductive Node where
  | value (value : Value)
  | table (origin : Origin) (entries : List (String × Node))
  /-- An array of tables, each with a header of its own. -/
  | tables (elements : List (List (String × Node)))
deriving Repr

abbrev Entries := List (String × Node)

namespace Entries

/-- Puts a node under a key, in place of one that is there. -/
def put (entries : Entries) (key : String) (node : Node) : Entries :=
  match entries with
  | [] => [(key, node)]
  | (k, n) :: rest => if k = key then (k, node) :: rest else (k, n) :: put rest key node

/-- Changes the table at a path.  Tables that are missing are made with the given origin.
An array of tables stands for its last one.  A dotted key does not reach into a table
with a header. -/
def update (made : Origin) (change : Origin → Entries → Option Entries) (own : Origin)
    (entries : Entries) : List String → Option Entries
  | [] => change own entries
  | key :: path =>
    match entries.lookup key with
    | none => (update made change made [] path).map fun inner =>
        entries.put key (.table made inner)
    | some (.value _) => none
    | some (.tables elements) =>
      elements.getLast?.bind fun last =>
        (update made change .header last path).map fun inner =>
          entries.put key (.tables (elements.dropLast ++ [inner]))
    | some (.table origin inner) =>
      if made = .dotted ∧ origin = .header then none
      else (update made change origin inner path).map fun inner =>
        entries.put key (.table origin inner)

/-- Adds a value under a dotted key, which has to be new.  Its last table has to be one
that dotted keys made. -/
def addValue (entries : Entries) (key : List String) (value : Value) : Option Entries :=
  key.getLast?.bind fun last =>
    update .dotted (fun own inner =>
      if (key.length = 1 ∨ own = .dotted) ∧ (inner.lookup last).isNone then
        some (inner.put last (.value value))
      else none) .header entries key.dropLast

def addValues (entries : Entries) (pairs : List (List String × Value)) : Option Entries :=
  pairs.foldlM (fun entries pair => addValue entries pair.1 pair.2) entries

/-- Adds a table with a header.  It may be there already by way of a table below it. -/
def addTable (entries : Entries) (key : List String) (pairs : List (List String × Value)) :
    Option Entries :=
  key.getLast?.bind fun last =>
    update .implied (fun _ outer => do
      let start ← match outer.lookup last with
        | none => some []
        | some (.table .implied inner) => some inner
        | some _ => none
      let inner ← addValues start pairs
      some (outer.put last (.table .header inner))) .header entries key.dropLast

/-- Adds a table to an array of tables. -/
def addElement (entries : Entries) (key : List String) (pairs : List (List String × Value)) :
    Option Entries :=
  key.getLast?.bind fun last =>
    update .implied (fun _ outer => do
      let before ← match outer.lookup last with
        | none => some []
        | some (.tables elements) => some elements
        | some _ => none
      let inner ← addValues [] pairs
      some (outer.put last (.tables (before ++ [inner])))) .header entries key.dropLast

end Entries

mutual
def Node.toValue : Node → Value
  | .value value => value
  | .table _ entries => .table (toValues entries)
  | .tables elements => .array (toTables elements)

def toValues : List (String × Node) → List (String × Value)
  | [] => []
  | (key, node) :: rest => (key, node.toValue) :: toValues rest

def toTables : List (List (String × Node)) → List Value
  | [] => []
  | entries :: rest => .table (toValues entries) :: toTables rest
end

end Toml
end DocPages
