/-
Tables that are built from pairs of keys and values and from arrays of tables.
-/
import DocPages.Toml.Document

namespace DocPages
namespace Toml

/-- A list of keys without dots and their values, as a document gives it. -/
def plainPairs (pairs : List (String × Value)) : List (List String × Value) :=
  pairs.map fun pair => ([pair.1], pair.2)

def plainEntries (pairs : List (String × Value)) : Entries :=
  pairs.map fun pair => (pair.1, .value pair.2)

theorem toValues_append (a b : Entries) : toValues (a ++ b) = toValues a ++ toValues b := by
  induction a with
  | nil => rfl
  | cons entry a ih => rw [List.cons_append, toValues, toValues, ih, List.cons_append]

theorem toValues_plain (pairs : List (String × Value)) : toValues (plainEntries pairs) = pairs := by
  induction pairs with
  | nil => rfl
  | cons pair pairs ih =>
      rw [plainEntries, List.map_cons, ← plainEntries, toValues, ih]
      rfl

theorem toTables_map {α : Type} (entries : α → Entries) (as : List α) :
    toTables (as.map entries) = as.map fun a => .table (toValues (entries a)) := by
  induction as with
  | nil => rfl
  | cons a as ih => rw [List.map_cons, List.map_cons, toTables, ih]

namespace Entries

def keys (entries : Entries) : List String := entries.map Prod.fst

section New

variable {entries : Entries} {key : String} (h : key ∉ keys entries)
include h

theorem lookup_new : entries.lookup key = none := by
  rw [List.lookup_eq_none_iff]
  intro entry hentry
  rw [bne_iff_ne]
  rintro rfl
  exact h (List.mem_map_of_mem hentry)

theorem lookup_last (node : Node) : List.lookup key (entries ++ [(key, node)]) = some node := by
  rw [List.lookup_append, lookup_new h]
  simp

theorem put_new (node : Node) : entries.put key node = entries ++ [(key, node)] := by
  induction entries with
  | nil => rfl
  | cons entry entries ih =>
      obtain ⟨hne, hrest⟩ := not_or.1 (mt List.mem_cons.2 h)
      rw [put, if_neg (Ne.symm hne), ih hrest, List.cons_append]

theorem put_last (old node : Node) :
    put (entries ++ [(key, old)]) key node = entries ++ [(key, node)] := by
  induction entries with
  | nil => exact if_pos rfl
  | cons entry entries ih =>
      obtain ⟨hne, hrest⟩ := not_or.1 (mt List.mem_cons.2 h)
      rw [List.cons_append, put, if_neg (Ne.symm hne), ih hrest, List.cons_append]

theorem addValue_plain (value : Value) :
    entries.addValue [key] value = some (entries ++ [(key, .value value)]) := by
  have hlookup := lookup_new h
  simp only [addValue, List.getLast?_singleton, Option.bind_some, List.dropLast_singleton, update,
    hlookup, put_new h, List.length_singleton, true_or, Option.isNone_none, and_self, if_true]

end New

theorem keys_append (a b : Entries) : keys (a ++ b) = keys a ++ keys b := List.map_append

theorem keys_plain (pairs : List (String × Value)) :
    keys (plainEntries pairs) = pairs.map Prod.fst := by
  rw [keys, plainEntries, List.map_map]
  rfl

theorem addValues_plain {entries : Entries} {pairs : List (String × Value)}
    (h : (keys entries ++ pairs.map Prod.fst).Nodup) :
    entries.addValues (plainPairs pairs) = some (entries ++ plainEntries pairs) := by
  induction pairs generalizing entries with
  | nil =>
      rw [plainEntries, List.map_nil, List.append_nil]
      rfl
  | cons pair pairs ih =>
      have hnew : pair.1 ∉ keys entries := by
        intro hmem
        rw [List.nodup_append] at h
        exact h.2.2 _ hmem _ List.mem_cons_self rfl
      have hrest : (keys (entries ++ [(pair.1, .value pair.2)]) ++ pairs.map Prod.fst).Nodup := by
        rw [keys_append, List.append_assoc]
        exact h
      have hfold := ih hrest
      rw [addValues] at hfold ⊢
      rw [plainPairs, List.map_cons, List.foldlM_cons, addValue_plain hnew]
      refine hfold.trans ?_
      rw [List.append_assoc]
      rfl

end Entries

/-! ## The sections of a document -/

def pairLines (pairs : List (String × Value)) : List Line :=
  pairs.map fun pair => .pair [pair.1] pair.2

theorem sections_pairLines (pairs : List (String × Value)) (lines : List Line) :
    sections (pairLines pairs ++ lines) =
      (plainPairs pairs ++ (sections lines).1, (sections lines).2) := by
  induction pairs with
  | nil => rfl
  | cons pair pairs ih =>
      rw [pairLines, List.map_cons, List.cons_append, ← pairLines, sections, ih]
      rfl

/-- An array of tables with a header for each. -/
def elements {α : Type} (key : String) (pairs : α → List (String × Value)) (as : List α) :
    List (Line × List (List String × Value)) :=
  as.map fun a => (.element [key], plainPairs (pairs a))

/-- What comes of them: nothing if there are none. -/
def tables {α : Type} (key : String) (pairs : α → List (String × Value)) : List α → Entries
  | [] => []
  | a :: as => [(key, .tables ((a :: as).map fun a => plainEntries (pairs a)))]

def elementLines {α : Type} (key : String) (pairs : α → List (String × Value)) (as : List α) :
    List Line :=
  as.flatMap fun a => .element [key] :: pairLines (pairs a)

theorem sections_elementLines {α : Type} (key : String) (pairs : α → List (String × Value))
    (as : List α) {lines : List Line} {parts : List (Line × List (List String × Value))}
    (h : sections lines = ([], parts)) :
    sections (elementLines key pairs as ++ lines) = ([], elements key pairs as ++ parts) := by
  induction as with
  | nil => exact h
  | cons a as ih =>
      rw [elementLines, List.flatMap_cons, ← elementLines, List.append_assoc, List.cons_append,
        sections, sections_pairLines, ih, List.append_nil]
      · rfl
      · exact fun _ _ => nofun

open Entries

section Elements

variable {α : Type} {key : String} {pairs : α → List (String × Value)}
variable (hpairs : ∀ a, ((pairs a).map Prod.fst).Nodup)
variable {entries : Entries} (hkey : key ∉ keys entries)
include hpairs hkey

theorem addElement_first (a : α) :
    entries.addElement [key] (plainPairs (pairs a)) =
      some (entries ++ [(key, .tables [plainEntries (pairs a)])]) := by
  have hinner : addValues [] (plainPairs (pairs a)) = some ([] ++ plainEntries (pairs a)) :=
    addValues_plain (hpairs a)
  simp only [addElement, List.getLast?_singleton, Option.bind_some, List.dropLast_singleton,
    update, lookup_new hkey, hinner, put_new hkey]
  rfl

theorem addElement_next (before : List Entries) (a : α) :
    addElement (entries ++ [(key, .tables before)]) [key] (plainPairs (pairs a)) =
      some (entries ++ [(key, .tables (before ++ [plainEntries (pairs a)]))]) := by
  have hinner : addValues [] (plainPairs (pairs a)) = some ([] ++ plainEntries (pairs a)) :=
    addValues_plain (hpairs a)
  simp only [addElement, List.getLast?_singleton, Option.bind_some, List.dropLast_singleton,
    update, lookup_last hkey, hinner, put_last hkey]
  rfl

theorem addSections_next (before : List Entries) (as : List α) :
    (elements key pairs as).foldlM addSection (entries ++ [(key, .tables before)]) =
      some (entries ++ [(key, .tables (before ++ as.map fun a => plainEntries (pairs a)))]) := by
  induction as generalizing before with
  | nil =>
      rw [List.map_nil, List.append_nil]
      rfl
  | cons a as ih =>
      have hnext := addElement_next hpairs hkey before a
      rw [elements, List.map_cons, List.foldlM_cons, ← elements, addSection]
      simp only [Option.bind_eq_bind, hnext, Option.bind_some, ih, List.map_cons,
        List.append_assoc, List.singleton_append]

end Elements

theorem addSections_elements {α : Type} {key : String} {pairs : α → List (String × Value)}
    (hpairs : ∀ a, ((pairs a).map Prod.fst).Nodup) {entries : Entries} {as : List α}
    (hkey : as ≠ [] → key ∉ keys entries) :
    (elements key pairs as).foldlM addSection entries = some (entries ++ tables key pairs as) := by
  cases as with
  | nil =>
      rw [tables, List.append_nil]
      rfl
  | cons a as =>
      have hnew := hkey (List.cons_ne_nil a as)
      have hfirst := addElement_first hpairs hnew a
      rw [elements, List.map_cons, List.foldlM_cons, ← elements, addSection]
      simp only [Option.bind_eq_bind, hfirst, Option.bind_some, addSections_next hpairs hnew,
        List.singleton_append]
      rfl

theorem keys_tables {α : Type} (key : String) (pairs : α → List (String × Value)) (as : List α) :
    keys (tables key pairs as) = if as.isEmpty then [] else [key] := by
  cases as <;> rfl

theorem toValues_tables {α : Type} (key : String) (pairs : α → List (String × Value))
    (as : List α) :
    toValues (tables key pairs as) =
      if as.isEmpty then [] else [(key, .array (as.map fun a => .table (pairs a)))] := by
  cases as with
  | nil => rfl
  | cons a as =>
      have hnode : Node.toValue (.tables ((a :: as).map fun a => plainEntries (pairs a))) =
          .array ((a :: as).map fun a => .table (pairs a)) := by
        rw [Node.toValue, toTables_map]
        simp only [toValues_plain]
      rw [tables, toValues, hnode]
      rfl

/-- A document that starts with no byte order mark. -/
theorem read?_eq {document : String} {lines : List Line}
    (hmark : document.toList.head? ≠ some '\ufeff')
    (hread : readLines? document.toList = some lines) :
    read? document =
      (addValues [] (sections lines).1).bind fun top =>
        ((sections lines).2.foldlM addSection top).map toValues := by
  rw [read?]
  dsimp only
  split
  · rename_i hs
    rw [hs] at hmark
    exact absurd rfl hmark
  · simp only [hread, Option.bind_eq_bind, Option.bind_some]
    congr 1
    funext top
    cases (sections lines).2.foldlM addSection top <;> rfl

end Toml
end DocPages
