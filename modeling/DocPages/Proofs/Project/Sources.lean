/-
Projects that are made of source texts.

`FromSources` says how such a project comes about: files that scan are added under the
packages of their folders, and plugins may go over it.  What a run parses is such a project.
Its items have the names that the texts declare, and these are words.
-/
import DocPages.CommandLine.Run
import DocPages.Proofs.Declaration.Moves
import DocPages.Proofs.Project.Turns

namespace DocPages
namespace Declaration

theorem isWord_of_scan {source : String} {ds : List Declaration} (h : scan source = .ok ds) :
    ∀ d ∈ ds, ∀ name ∈ d.names, IsWord name.toList :=
  forall_of_scan (fun _ _ hmade => hmade.names) h

end Declaration

namespace Project

/-! ## The names of all items -/

/-- All items have names of some sort. -/
def NamesAll (P : String → Prop) (p : Project) : Prop :=
  ∀ id item, p.item? id = some item → P item.name

variable {P : String → Prop} {p : Project}

theorem NamesAll.turn (h : p.NamesAll P) {package : String} {index : Nat} {d : Declaration}
    {q : Project} {opened opened' : List OpenType} (hopen : Building.OpenIn p opened)
    (hturn : Building.Turn package index d p opened q opened') (hd : ∀ name ∈ d.names, P name) :
    q.NamesAll P := by
  intro id new hnew
  rcases hturn.item_cases hopen hnew with ⟨item, hitem, hcarries⟩ | hmade
  · rw [hcarries.name]
    exact h id item hitem
  · obtain ⟨_, _, parent, name, members, _, _, hname, rfl⟩ := hmade
    exact hd name (List.mem_of_mem_filter (List.mem_of_getElem? hname))

theorem NamesAll.addFile (h : p.NamesAll P) (hp : p.IsForest) (package path : String)
    {ds : List Declaration} (hds : ∀ d ∈ ds, ∀ name ∈ d.names, P name) :
    (p.addFile package path ds).1.NamesAll P :=
  addFile_keeps (I := fun p _ => p.NamesAll P)
    (fun d hd _ _ _ _ _ _ hopen hturn h => h.turn hopen hturn (hds d hd))
    (fun _ _ _ _ h => h) hp h

theorem NamesAll.generate (h : p.NamesAll P) (plugin : KindRules) :
    (plugin.generate p).project.NamesAll P := by
  obtain ⟨kinds, hkinds⟩ := exists_setKinds_generate plugin p
  rw [hkinds]
  intro id new hnew
  obtain ⟨item, kind, hitem, rfl⟩ := item_of_setKinds hnew
  exact h id item hitem

/-! ## From texts to projects -/

/-- The projects that come of scanned texts. -/
inductive FromSources : Project → Prop where
  | empty : FromSources {}
  | source {p : Project} {text : String} {ds : List Declaration} (h : FromSources p)
      (folder path : String) (hs : Declaration.scan text = .ok ds) :
      FromSources (p.addFile (Path.packageName folder) path ds).1
  | kinds {p : Project} (h : FromSources p) (plugin : KindRules) :
      FromSources (plugin.generate p).project

namespace FromSources

theorem isForest (h : FromSources p) : p.IsForest := by
  induction h with
  | empty => exact empty_isForest
  | source _ folder path _ ih => exact ih.addFile _ path _
  | kinds _ plugin ih => exact ih.of_shape (shape_generate plugin _)

theorem names (h : FromSources p) : p.NamesAll fun name => Declaration.IsWord name.toList := by
  induction h with
  | empty => exact nofun
  | source h folder path hs ih =>
      exact ih.addFile h.isForest _ path (Declaration.isWord_of_scan hs)
  | kinds _ plugin ih => exact ih.generate plugin

theorem runSlots (h : FromSources p) (slots : List (Slot KindRules)) :
    FromSources (Pipeline.runSlots p slots).2.1 := by
  induction slots generalizing p with
  | nil => exact h
  | cons slot rest ih =>
      have hslot : FromSources (slot.run p).2.1 := by
        unfold Slot.run
        simp only
        split <;> exact h.kinds slot.plugin
      unfold Pipeline.runSlots
      cases slot.isActive with
      | true => exact ih hslot
      | false => exact ih h

theorem run (h : FromSources p) (pipeline : Pipeline KindRules) :
    FromSources (pipeline.run p).2.1 :=
  h.runSlots pipeline.slots

/-! ## What a run parses -/

theorem addSource {parsed : Sources.Parsed} (h : FromSources parsed.project) (folder path : String)
    (content : Except FileFailure String) :
    FromSources (Sources.addSource (Path.packageName folder) path parsed content).project := by
  unfold Sources.addSource
  simp only
  split
  · exact h
  · split
    · exact h
    · rename_i content ds hparse
      unfold Sources.parseFile at hparse
      split at hparse
      · split at hparse
        · rename_i hscan
          cases hparse
          exact h.source folder path hscan
        · cases hparse
      · cases hparse

variable {σ : Type} [FileSystem (StateM σ)]

theorem addSources (parsed : Sources.Parsed) (h : FromSources parsed.project) (folder : String)
    (paths : List String) (s : σ) :
    FromSources ((Sources.addSources (Path.packageName folder) parsed paths :
      StateM σ Sources.Parsed) s).1.project := by
  induction paths generalizing parsed s with
  | nil => exact h
  | cons path rest ih => exact ih _ (h.addSource folder path _) _

theorem parseFolder (h : FromSources p) (folder : String) (s : σ) :
    FromSources ((Sources.parseFolder p folder : StateM σ Sources.Parsed) s).1.project :=
  addSources ⟨p, 0, _⟩ h folder _ _

theorem parseFolders (h : FromSources p) (folders : List String) (s : σ) :
    FromSources ((CommandLine.parseFolders p folders : StateM σ (Project × Log)) s).1.1 := by
  induction folders generalizing p s with
  | nil => exact h
  | cons folder rest ih =>
      let found := (FileSystem.isFolder folder : StateM σ Bool) s
      rw [CommandLine.parseFolders]
      show FromSources ((ite (found.1 = true) _ _ : StateM σ (Project × Log)) found.2).1.1
      split
      · exact ih (h.parseFolder folder found.2) _
      · exact ih h found.2

end FromSources
end Project
end DocPages
