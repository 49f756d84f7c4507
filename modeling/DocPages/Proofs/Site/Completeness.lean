/-
Nothing that is built is left out of the site.

Where every item has a name and documentation, and only containers hold members, writing
comes to everything inside an item (`met_of_within`), and there is nothing to skip.  So the
pages of all namespaces together show every item once, and no event of a run reports that
something was skipped.  The theorem this file exists for, `build_shown`, says so of the
projects that files make.
-/
import DocPages.Proofs.Page.Links
import DocPages.Proofs.Plugin.Reclassification
import DocPages.Proofs.Project.Documented
import DocPages.Site
import Mathlib.Data.List.Perm.Basic

namespace DocPages
namespace Page

open Text

/-! ## Projects without blanks -/

/-- Every item can be shown where it stands. -/
structure Showable (p : Project) : Prop where
  isForest : p.IsForest
  filled : ∀ id, isBlankAt p id = false
  owners : ∀ id owner, p.parent? id = some owner → isContainerAt p owner = true

theorem met_of_within {p : Project} (hp : Showable p) {root id : ItemId}
    (h : p.Within id root) : Met p root id := by
  induction h with
  | refl => exact .inl rfl
  | @tail m owner hchain hstep ih =>
      have hmember := (hp.isForest.member_iff owner m).2 hstep
      refine met_iff.2 (.inr ⟨hp.filled owner, m, hmember, ?_⟩)
      rcases Relation.ReflTransGen.cases_tail hchain with rfl | ⟨inner, _, hinner⟩
      · exact .inl rfl
      · exact .inr ⟨hp.owners inner m hinner, ih⟩

/-! ## Calls one after the other -/

/-- What writing several items comes to. -/
def outputsOf (p : Project) (o : Options) (names : Names) : List ItemId → List Output
  | [] => []
  | id :: rest => (write p o names id).2.1 ++ outputsOf p o (write p o names id).1 rest

theorem pages_writeAll (p : Project) (o : Options) (names : Names) (ids : List ItemId) :
    (writeAll p o names ids).1 = (outputsOf p o names ids).filterMap Output.written? := by
  induction ids generalizing names with
  | nil => rfl
  | cons id rest ih => rw [writeAll, outputsOf, List.filterMap_append, ← ih]

/-- The items that writing one comes to. -/
def metIds (p : Project) (kinds : KindTable) (id : ItemId) : List ItemId :=
  ((entryOf? p id).map fun e => (outline p kinds e).met.map Entry.id).getD []

theorem metIds_eq {p : Project} (kinds : KindTable) {id : ItemId} {e : Entry}
    (h : entryOf? p id = some e) : metIds p kinds id = (outline p kinds e).met.map Entry.id := by
  rw [metIds, h]
  rfl

section Showable

variable {p : Project} (hp : Showable p)

include hp

theorem mem_metIds (kinds : KindTable) {root : ItemId} (hroot : root < p.items.size)
    (id : ItemId) : id ∈ metIds p kinds root ↔ p.Within id root := by
  obtain ⟨e, he, rfl, hof⟩ := exists_entry hroot
  rw [metIds_eq kinds he, mem_ids_met hp.isForest kinds hof]
  exact ⟨within_of_met hp.isForest, met_of_within hp⟩

theorem nodup_metIds (kinds : KindTable) {root : ItemId} (hroot : root < p.items.size) :
    (metIds p kinds root).Nodup := by
  obtain ⟨e, he, rfl, hof⟩ := exists_entry hroot
  rw [metIds_eq kinds he]
  exact nodup_met hp.isForest kinds hof

theorem proseIds_outputsOf (o : Options) (names : Names) {ids : List ItemId}
    (hids : ∀ id ∈ ids, id < p.items.size) :
    (outputsOf p o names ids).flatMap Output.proseIds = ids.flatMap (metIds p o.kinds) := by
  induction ids generalizing names with
  | nil => rfl
  | cons id rest ih =>
      obtain ⟨e, he, _, hof⟩ := exists_entry (hids id List.mem_cons_self)
      have hall : ((outline p o.kinds e).met.map Entry.id).filter (fun j => !isBlankAt p j) =
          (outline p o.kinds e).met.map Entry.id := by
        rw [List.filter_eq_self]
        intro j _
        rw [hp.filled j]
        rfl
      rw [outputsOf, List.flatMap_append, proseIds_write hp.isForest he hof, hall,
        ih _ fun j hj => hids j (List.mem_cons_of_mem _ hj), List.flatMap_cons, metIds_eq _ he]

end Showable

/-! ## Reports -/

/-- No skip is reported by the event. -/
def Harmless (e : Event) : Prop := ∀ reason : Skip, e ≠ reason.event

theorem harmless_trace (level : Level) (message : String) : Harmless (.trace level message) := by
  intro reason h
  cases reason <;> cases h

/-- The report of a missing name starts with another letter. -/
theorem harmless_of_head {front : String} {c : Char} (h : front.toList.head? = some c)
    (hc : c ≠ 's') (rest : String) : Harmless (.error (front ++ rest)) := by
  intro reason heq
  cases reason with
  | noMarkup fullName => cases heq
  | noName kind =>
      obtain ⟨_, htext⟩ := Event.diagnostic.inj heq
      have hhead := congrArg (fun s => s.toList.head?) htext
      simp only [String.toList_append, List.head?_append, h, Option.some_or] at hhead
      exact hc (Option.some.inj hhead)

/-- And it ends with another letter. -/
theorem harmless_of_last {back : String} {c : Char} (h : back.toList.getLast? = some c)
    (hc : c ≠ 'e') (rest : String) : Harmless (.error (rest ++ back)) := by
  intro reason heq
  cases reason with
  | noMarkup fullName => cases heq
  | noName kind =>
      obtain ⟨_, htext⟩ := Event.diagnostic.inj heq
      have hlast := congrArg (fun s => s.toList.getLast?) htext
      simp only [String.toList_append, List.getLast?_append, h, Option.some_or] at hlast
      exact hc (Option.some.inj hlast)

theorem harmless_grant (g : Grant) : ∀ e ∈ g.log, Harmless e := by
  intro e he
  unfold Grant.log at he
  split at he
  · cases he
  · rw [List.mem_singleton.1 he]
    exact harmless_of_last (c := 'd') (by decide) (by decide) _

theorem harmless_reports {p : Project} (hp : Showable p) (id : ItemId) :
    ∀ e ∈ reports p id, Harmless e := by
  have hfilled := hp.filled id
  unfold reports
  unfold isBlankAt at hfilled
  intro e he
  cases hitem : p.item? id with
  | none =>
      rw [hitem] at he
      cases he
  | some item =>
      rw [hitem] at he hfilled
      simp only [Option.any_some, Bool.or_eq_false_iff] at hfilled
      simp only [hfilled.1, hfilled.2, Bool.false_eq_true, if_false] at he
      split at he
      · cases he
      · rw [List.mem_singleton.1 he, String.append_assoc, String.append_assoc]
        exact harmless_of_head (c := 'm') (by decide) (by decide) _

theorem harmless_writeAll {p : Project} (hp : Showable p) (o : Options) (names : Names)
    (ids : List ItemId) : ∀ e ∈ (writeAll p o names ids).2, Harmless e := by
  induction ids generalizing names with
  | nil => exact nofun
  | cons id rest ih =>
      rw [writeAll]
      refine List.forall_mem_append.2 ⟨?_, ih _⟩
      rcases Nat.lt_or_ge id p.items.size with hid | hid
      · obtain ⟨entry, hentry, _, hof⟩ := exists_entry hid
        rw [log_write hp.isForest hentry hof]
        refine List.forall_mem_append.2 ⟨?_, ?_⟩
        · intro e he
          obtain ⟨g, _, hg⟩ := List.mem_flatMap.1 he
          exact harmless_grant g e hg
        · intro e he
          obtain ⟨j, _, hj⟩ := List.mem_flatMap.1 he
          exact harmless_reports hp j e hj
      · rw [write_outside hid]
        intro e he
        cases he

end Page

namespace Site

open Page

/-! ## The pages of all namespaces -/

/-- The items of a namespace in the order in which they are written. -/
def order (p : Project) (o : Options) (ns : Namespace) : List ItemId :=
  (sortEntries o.kinds (ns.items.filterMap (entryOf? p))).map Entry.id

/-- What writing a namespace comes to. -/
def outputs (p : Project) (o : Options) (ns : Namespace) : List Output :=
  outputsOf p o {} (order p o ns)

theorem pages_eq (p : Project) (o : Options) (ns : Namespace) :
    (pages p o ns).1 = (outputs p o ns).filterMap Output.written? :=
  pages_writeAll p o {} (order p o ns)

theorem order_perm {p : Project} (o : Options) {ns : Namespace}
    (h : ∀ id ∈ ns.items, id < p.items.size) : (order p o ns).Perm ns.items := by
  have hids : (ns.items.filterMap (entryOf? p)).map Entry.id = ns.items := by
    generalize ns.items = ids at h
    induction ids with
    | nil => rfl
    | cons id rest ih =>
        obtain ⟨e, he, hid, _⟩ := exists_entry (h id List.mem_cons_self)
        rw [List.filterMap_cons_some he, List.map_cons, hid,
          ih fun j hj => h j (List.mem_cons_of_mem _ hj)]
  have hsorted : (sortEntries o.kinds (ns.items.filterMap (entryOf? p))).Perm
      (ns.items.filterMap (entryOf? p)) := List.mergeSort_perm _ _
  exact (hsorted.map Entry.id).trans (List.Perm.of_eq hids)

/-- The prose of all pages is that of every item, once. -/
theorem prose_perm {p : Project} (hp : Showable p) (o : Options) :
    ((p.namespaces.toList.flatMap (outputs p o)).flatMap Output.proseIds).Perm
      (List.range p.items.size) := by
  have hitems : ∀ ns ∈ p.namespaces.toList, ∀ id ∈ ns.items, id < p.items.size := by
    intro ns hns id hid
    exact ((hp.isForest.top_iff id).1 (List.mem_flatMap.2 ⟨ns, hns, hid⟩)).1
  have horder : (p.namespaces.toList.flatMap (order p o)).Perm p.topLevel :=
    List.Perm.flatMap_left _ fun ns hns => order_perm o (hitems ns hns)
  have hlt : ∀ top ∈ p.namespaces.toList.flatMap (order p o), top < p.items.size := fun top h =>
    ((hp.isForest.top_iff top).1 (horder.mem_iff.1 h)).1
  have hprose : (p.namespaces.toList.flatMap (outputs p o)).flatMap Output.proseIds =
      (p.namespaces.toList.flatMap (order p o)).flatMap (metIds p o.kinds) := by
    rw [List.flatMap_assoc, List.flatMap_assoc]
    refine List.flatMap_congr fun ns hns => ?_
    exact proseIds_outputsOf hp o {} fun id hid => hlt id (List.mem_flatMap.2 ⟨ns, hns, hid⟩)
  rw [hprose]
  exact hp.isForest.perm_of_within horder (fun top h => mem_metIds hp o.kinds (hlt top h))
    fun top h => nodup_metIds hp o.kinds (hlt top h)

/-! ## The log of a run -/

section Run

variable {σ : Type} [FileSystem (StateM σ)]

theorem harmless_writePages (folder : String) (pages : List WrittenPage) (s : σ) :
    ∀ e ∈ ((writePages folder pages : StateM σ (Report × Log)) s).1.2, Harmless e := by
  induction pages generalizing s with
  | nil => exact nofun
  | cons page rest ih =>
      simp only [writePages, bind, StateT.bind, pure]
      rcases (FileSystem.writeFile (file folder page) page.content : StateM σ _) s with ⟨answer, s'⟩
      cases answer with
      | ok _ => exact List.forall_mem_cons.2 ⟨harmless_trace _ _, ih s'⟩
      | error failure =>
          refine List.forall_mem_cons.2 ⟨?_, ih s'⟩
          rw [String.append_assoc, String.append_assoc]
          exact harmless_of_head (c := 'f') (by decide) (by decide) _

theorem harmless_writeNamespace {p : Project} (hp : Showable p) (o : Options) (root : String)
    (ns : Namespace) (s : σ) :
    ∀ e ∈ ((writeNamespace p o root ns : StateM σ (Report × Log)) s).1.2, Harmless e := by
  have hpages : ∀ e ∈ (pages p o ns).2, Harmless e := harmless_writeAll hp o {} (order p o ns)
  unfold writeNamespace
  simp only
  split
  · exact hpages
  · simp only [bind, StateT.bind, pure]
    rcases (FileSystem.makeFolders (folder root ns) : StateM σ _) s with ⟨answer, s'⟩
    cases answer with
    | ok _ => exact List.forall_mem_append.2 ⟨hpages, harmless_writePages _ _ s'⟩
    | error failure =>
        refine List.forall_mem_append.2 ⟨hpages, List.forall_mem_singleton.2 ?_⟩
        rw [String.append_assoc, String.append_assoc]
        exact harmless_of_head (c := 'f') (by decide) (by decide) _

theorem harmless_writeNamespaces {p : Project} (hp : Showable p) (o : Options) (root : String)
    (namespaces : List Namespace) (s : σ) :
    ∀ e ∈ ((writeNamespaces p o root namespaces : StateM σ (Report × Log)) s).1.2,
      Harmless e := by
  induction namespaces generalizing s with
  | nil => exact nofun
  | cons ns rest ih =>
      exact List.forall_mem_append.2 ⟨harmless_writeNamespace hp o root ns s, ih _⟩

theorem harmless_write {p : Project} (hp : Showable p) (o : Options) (root : String) (s : σ) :
    ∀ e ∈ ((write p o root : StateM σ (Report × Log)) s).1.2, Harmless e := by
  refine List.forall_mem_append.2 ⟨harmless_writeNamespaces hp o root _ s, ?_⟩
  exact List.forall_mem_singleton.2 (harmless_trace _ _)

end Run

/-! ## What files make -/

theorem showable_setKinds (files : List Project.SourceFile) (kinds : List (ItemId × String)) :
    Showable ((Project.build files).setKinds kinds) := by
  have hshape := Project.shape_setKinds (Project.build files) kinds
  have hdocumented := (Project.documented_build files).setKinds kinds
  refine ⟨(Project.isForest_build files).of_shape hshape, ?_, ?_⟩
  · intro id
    rw [isBlankAt, Bool.eq_false_iff]
    intro hany
    obtain ⟨item, hitem, hblank⟩ := (Option.any_eq_true _ _).1 hany
    have hitem := hdocumented id item hitem
    rw [hitem.prose.not_allBlank, Bool.or_false] at hblank
    exact absurd hitem.named (by rw [Project.isBlankName, hblank]; decide)
  · intro id owner hparent
    rw [Project.parent?_of_shape hshape] at hparent
    obtain ⟨item, hitem, howner⟩ := Option.bind_eq_some_iff.1 hparent
    have hcontainer := (Project.housed_build files).owners id item owner hitem howner
    obtain ⟨found, hfound, hc⟩ := hcontainer.setKinds kinds
    rw [isContainerAt, hfound]
    exact hc

/-- Whatever files are added to an empty project, and whatever kinds its items are given
then, every item has a name and prose.  So a run, whatever becomes of the files it writes,
reports no item as skipped, and the prose of every item stands once on the pages. -/
theorem build_shown (files : List Project.SourceFile) (kinds : List (ItemId × String)) :
    let p := (Project.build files).setKinds kinds
    (∀ id item, p.item? id = some item →
      Project.isBlankName item.name = false ∧ Comment.IsProse item.markup) ∧
    ∀ (o : Options) (root : String),
      (∀ (σ : Type) [FileSystem (StateM σ)] (s : σ) (reason : Skip),
        reason.event ∉ ((write p o root : StateM σ (Report × Log)) s).1.2) ∧
      (∀ ns, (pages p o ns).1 = (outputs p o ns).filterMap Output.written?) ∧
      ((p.namespaces.toList.flatMap (outputs p o)).flatMap Output.proseIds).Perm
        (List.range p.items.size) := by
  intro p
  have hp : Showable p := showable_setKinds files kinds
  refine ⟨?_, ?_⟩
  · intro id item hitem
    have h := (Project.documented_build files).setKinds kinds id item hitem
    exact ⟨h.named, h.prose⟩
  · intro o root
    refine ⟨?_, pages_eq p o, prose_perm hp o⟩
    intro σ _ s reason hmem
    exact harmless_write hp o root s _ hmem reason rfl

end Site
end DocPages
