/-
Where paths lead on a disk, and what changing a disk leaves as it is.

The components of a path lead to a location, whether or not anything stands there.
Following the path on a disk ends there too, if all it passes through are folders.  Making
folders only adds folders where nothing stood, and writing a file changes nothing but that
file.
-/
import DocPages.Files.Disk
import DocPages.Proofs.Files.Paths

namespace DocPages
namespace Disk

open DocPages.Path Text

/-! ## Locations -/

/-- Goes on from a location by one component. -/
def goOn (l : Location) : Component → Location
  | .root => []
  | .current => l
  | .parent => l.dropLast
  | .normal name => l ++ [name]

/-- Where some components lead. -/
def dest (l : Location) (cs : List Component) : Location := cs.foldl goOn l

/-- The location that a path leads to. -/
def location (d : Disk) (path : String) : Location := dest d.workingFolder (components path)

theorem dest_append (l : Location) (a b : List Component) : dest l (a ++ b) = dest (dest l a) b :=
  List.foldl_append

theorem location_eq (d : Disk) (path : String) :
    d.location path = dest (d.start path) (meant (pieces path)) := by
  unfold location start
  rcases components_cases path with h | ⟨habs, h⟩
  · rw [h, dest_append, origin]
    cases isAbsolute path <;> rfl
  · rw [h, habs]
    rfl

theorem start_join {name : String} (h : IsName name) (d : Disk) (path : String) :
    d.start (join path name) = d.start path := by
  rw [start, start, isAbsolute_join, h.relative, Bool.false_or]

theorem location_join {name : String} (h : IsName name) (d : Disk) (path : String) :
    d.location (join path name) = d.location path ++ [name] := by
  obtain ⟨front, hpieces, hfront⟩ := pieces_join h.relative path
  rw [location_eq, location_eq, hpieces, meant_append, hfront, h.meant_eq, start_join h,
    dest_append]
  rfl

/-! ## Following a path -/

/-- A name is not too long for the disk. -/
def Fits : Component → Prop
  | .normal name => byteLength name.toList ≤ 255
  | _ => True

/-- All that the components pass through are folders. -/
def Passable (d : Disk) (l : Location) : List Component → Prop
  | [] => True
  | c :: rest => d.node? l = some .folder ∧ Fits c ∧ d.Passable (goOn l c) rest

/-- The components pass through folders and end at one. -/
def Open (d : Disk) (l : Location) (cs : List Component) : Prop :=
  d.Passable l cs ∧ d.node? (dest l cs) = some .folder

theorem passable_append {d : Disk} {l : Location} {a b : List Component} :
    d.Passable l (a ++ b) ↔ d.Passable l a ∧ d.Passable (dest l a) b := by
  induction a generalizing l with
  | nil => simp [Passable, dest]
  | cons c rest ih =>
      rw [List.cons_append, Passable, Passable, ih, and_assoc, and_assoc]
      rfl

theorem Open.start {d : Disk} {l : Location} {cs : List Component} (h : d.Open l cs) :
    d.node? l = some .folder := by
  cases cs with
  | nil => exact h.2
  | cons c rest => exact h.1.1

/-- What is on the way to a folder is a folder. -/
theorem Open.of_append {d : Disk} {l : Location} {a b : List Component} (h : d.Open l (a ++ b)) :
    d.Open l a := by
  obtain ⟨ha, hb⟩ := passable_append.1 h.1
  refine ⟨ha, ?_⟩
  have hrest : d.Open (dest l a) b := ⟨hb, by rw [← dest_append]; exact h.2⟩
  exact hrest.start

theorem node?_start (d : Disk) (path : String) : d.node? (d.start path) = some .folder := by
  unfold node? Disk.start
  cases isAbsolute path with
  | true => rfl
  | false => rw [if_neg Bool.false_ne_true, if_pos (by simp)]

theorem follow_of_none {d : Disk} {l : Location} {piece : List Char} (h : component? piece = none)
    (hl : d.node? l = some .folder) : d.follow l piece = .ok l := by
  rw [follow, hl]
  unfold component? at h
  split at h
  · rename_i hnone
    exact if_pos hnone
  · split at h <;> cases h

theorem follow_of_some {d : Disk} {l : Location} {piece : List Char} {c : Component}
    (h : component? piece = some c) (hl : d.node? l = some .folder) (hfit : Fits c) :
    d.follow l piece = .ok (goOn l c) := by
  rw [follow, hl]
  rcases component?_eq_some h with ⟨rfl, rfl⟩ | ⟨hne, hdot, hup, rfl⟩
  · rfl
  · rw [Fits, String.toList_ofList] at hfit
    simp only
    rw [if_neg (by simp [hne, hdot]), if_neg hup, if_neg (Nat.not_lt.2 hfit)]
    rfl

theorem follow_eq_ok {d : Disk} {l m : Location} {piece : List Char}
    (h : d.follow l piece = .ok m) :
    d.node? l = some .folder ∧
      (component? piece = none ∧ m = l ∨
        ∃ c, component? piece = some c ∧ Fits c ∧ m = goOn l c) := by
  unfold follow at h
  split at h
  · cases h
  · cases h
  · rename_i hl
    refine ⟨hl, ?_⟩
    unfold component?
    split at h
    · rename_i hnone
      cases h
      exact .inl ⟨if_pos hnone, rfl⟩
    · rename_i hsome
      rw [if_neg hsome]
      split at h
      · rename_i hup
        cases h
        rw [if_pos hup]
        exact .inr ⟨.parent, rfl, trivial, rfl⟩
      · rename_i hup
        split at h
        · cases h
        · rename_i hfit
          cases h
          rw [if_neg hup]
          refine .inr ⟨_, rfl, ?_, rfl⟩
          rw [Fits, String.toList_ofList]
          exact Nat.not_lt.1 hfit

theorem followAll_cons_of_ok {d : Disk} {l m : Location} {piece : List Char}
    (h : d.follow l piece = .ok m) (rest : List (List Char)) :
    d.followAll l (piece :: rest) = d.followAll m rest := by
  rw [followAll, h]
  rfl

theorem followAll_cons_of_error {d : Disk} {l : Location} {piece : List Char} {e : FileFailure}
    (h : d.follow l piece = .error e) (rest : List (List Char)) :
    d.followAll l (piece :: rest) = .error e := by
  rw [followAll, h]
  rfl

theorem passable_of_followAll {d : Disk} {l m : Location} {ps : List (List Char)}
    (h : d.followAll l ps = .ok m) : d.Passable l (meant ps) ∧ m = dest l (meant ps) := by
  induction ps generalizing l with
  | nil =>
      cases h
      exact ⟨trivial, rfl⟩
  | cons piece rest ih =>
      cases hfollow : d.follow l piece with
      | error e =>
          rw [followAll_cons_of_error hfollow] at h
          cases h
      | ok next =>
          rw [followAll_cons_of_ok hfollow] at h
          obtain ⟨hl, ⟨hnone, rfl⟩ | ⟨c, hsome, hfit, rfl⟩⟩ := follow_eq_ok hfollow
          · rw [meant, List.filterMap_cons_none hnone]
            exact ih h
          · rw [meant, List.filterMap_cons_some hsome]
            exact ⟨⟨hl, hfit, (ih h).1⟩, (ih h).2⟩

theorem Open.followAll {d : Disk} {l : Location} {ps : List (List Char)}
    (h : d.Open l (meant ps)) : d.followAll l ps = .ok (dest l (meant ps)) := by
  induction ps generalizing l with
  | nil => rfl
  | cons piece rest ih =>
      have hl := h.start
      cases hc : component? piece with
      | none =>
          rw [meant, List.filterMap_cons_none hc] at h ⊢
          rw [followAll_cons_of_ok (follow_of_none hc hl)]
          exact ih h
      | some c =>
          rw [meant, List.filterMap_cons_some hc] at h ⊢
          rw [followAll_cons_of_ok (follow_of_some hc hl h.1.2.1)]
          exact ih ⟨h.1.2.2, h.2⟩

theorem followAll_append {d : Disk} {l m : Location} {a : List (List Char)}
    (h : d.followAll l a = .ok m) (b : List (List Char)) :
    d.followAll l (a ++ b) = d.followAll m b := by
  induction a generalizing l with
  | nil =>
      cases h
      rfl
  | cons piece rest ih =>
      cases hfollow : d.follow l piece with
      | error e =>
          rw [followAll_cons_of_error hfollow] at h
          cases h
      | ok next =>
          rw [followAll_cons_of_ok hfollow] at h
          rw [List.cons_append, followAll_cons_of_ok hfollow]
          exact ih h

/-! ## Changes -/

/-- All that is on a disk is still there. -/
structure Extends (d d' : Disk) : Prop where
  workingFolder : d'.workingFolder = d.workingFolder
  kept : ∀ l n, d.node? l = some n → d'.node? l = some n

/-- Folders are still folders and files are still files, with whatever they hold. -/
structure Grows (d d' : Disk) : Prop where
  workingFolder : d'.workingFolder = d.workingFolder
  folders : ∀ l, d.node? l = some .folder → d'.node? l = some .folder
  files : ∀ l content, d.node? l = some (.file content) →
    ∃ content', d'.node? l = some (.file content')

theorem Extends.refl (d : Disk) : Extends d d := ⟨rfl, fun _ _ h => h⟩

theorem Extends.trans {a b c : Disk} (hab : Extends a b) (hbc : Extends b c) : Extends a c :=
  ⟨hbc.workingFolder.trans hab.workingFolder, fun l n h => hbc.kept l n (hab.kept l n h)⟩

theorem Extends.grows {d d' : Disk} (h : Extends d d') : Grows d d' :=
  ⟨h.workingFolder, fun l hl => h.kept l _ hl, fun l content hl => ⟨content, h.kept l _ hl⟩⟩

theorem Grows.trans {a b c : Disk} (hab : Grows a b) (hbc : Grows b c) : Grows a c where
  workingFolder := hbc.workingFolder.trans hab.workingFolder
  folders l h := hbc.folders l (hab.folders l h)
  files l content h := by
    obtain ⟨content', h'⟩ := hab.files l content h
    exact hbc.files l content' h'

theorem Grows.start {d d' : Disk} (h : Grows d d') (path : String) :
    d'.start path = d.start path := by
  rw [Disk.start, Disk.start, h.workingFolder]

theorem Grows.location {d d' : Disk} (h : Grows d d') (path : String) :
    d'.location path = d.location path := by
  rw [Disk.location, Disk.location, h.workingFolder]

theorem Passable.grows {d d' : Disk} (h : Grows d d') {l : Location} {cs : List Component}
    (hp : d.Passable l cs) : d'.Passable l cs := by
  induction cs generalizing l with
  | nil => trivial
  | cons c rest ih => exact ⟨h.folders l hp.1, hp.2.1, ih hp.2.2⟩

theorem Open.grows {d d' : Disk} (h : Grows d d') {l : Location} {cs : List Component}
    (ho : d.Open l cs) : d'.Open l cs :=
  ⟨ho.1.grows h, h.folders _ ho.2⟩

theorem followAll_grows {d d' : Disk} (h : Grows d d') {l m : Location} {ps : List (List Char)}
    (hf : d.followAll l ps = .ok m) : d'.followAll l ps = .ok m := by
  induction ps generalizing l with
  | nil => exact hf
  | cons piece rest ih =>
      cases hfollow : d.follow l piece with
      | error e =>
          rw [followAll_cons_of_error hfollow] at hf
          cases hf
      | ok next =>
          rw [followAll_cons_of_ok hfollow] at hf
          have hnext : d'.follow l piece = .ok next := by
            obtain ⟨hl, ⟨hnone, rfl⟩ | ⟨c, hsome, hfit, rfl⟩⟩ := follow_eq_ok hfollow
            · exact follow_of_none hnone (h.folders _ hl)
            · exact follow_of_some hsome (h.folders _ hl) hfit
          rw [followAll_cons_of_ok hnext]
          exact ih hf

theorem lookup_filter_ne {l m : Location} (h : m ≠ l) (nodes : List (Location × FileNode)) :
    (nodes.filter (·.1 != l)).lookup m = nodes.lookup m := by
  induction nodes with
  | nil => rfl
  | cons entry rest ih =>
      rw [List.filter_cons]
      split
      · rw [List.lookup_cons, List.lookup_cons, ih]
      · rename_i heq
        have hother : (m == entry.1) = false := by
          rw [beq_eq_false_iff_ne]
          rintro rfl
          exact heq (bne_iff_ne.2 h)
        rw [List.lookup_cons, hother, ih]

theorem node?_put {d : Disk} {l : Location} (h : d.node? l ≠ some .folder) (n : FileNode)
    (m : Location) : (d.put l n).node? m = if m = l then some n else d.node? m := by
  unfold node? at h ⊢
  unfold put
  simp only
  split
  · rename_i hm
    have hne : m ≠ l := by
      rintro rfl
      exact h (if_pos hm)
    rw [if_neg hne]
  · by_cases hm : m = l
    · subst hm
      simp
    · rw [if_neg hm, List.lookup_cons, beq_eq_false_iff_ne.2 hm]
      exact lookup_filter_ne hm d.nodes

theorem extends_put {d : Disk} {l : Location} (h : d.node? l = none) (n : FileNode) :
    Extends d (d.put l n) := by
  refine ⟨rfl, fun m n' hm => ?_⟩
  have hne : m ≠ l := by
    rintro rfl
    rw [h] at hm
    cases hm
  rw [node?_put (by rw [h]; exact nofun), if_neg hne]
  exact hm

end Disk
end DocPages
